import Caret.Json.Printer

/-!
Values on the workbench. Parsers of every type meet there, so their values are brought into one type; the diagnostic form
of a datum is that of the value it stands for.
-/

namespace Caret.Workbench

inductive Datum where
  | unit
  | char (value : Char)
  | text (value : String)
  | word (value : Int64)
  | float (value : Double)
  | list (items : List Datum)
  | pair (first second : Datum)
  | none
  | some (value : Datum)
  | json (value : Json)

namespace Datum

instance : Inhabited Datum := ⟨unit⟩

mutual

def diagnostic : Datum → String
  | unit => shown ()
  | char value => shown value
  | text value => shown value
  | word value => shown value
  | float value => shown value
  | list items => "[" ++ ", ".intercalate (diagnostics items) ++ "]"
  | pair first second => "(" ++ first.diagnostic ++ ", " ++ second.diagnostic ++ ")"
  | none => "None"
  | some value => "Some(" ++ value.diagnostic ++ ")"
  | json value => shown value

def diagnostics : List Datum → List String
  | [] => []
  | item :: rest => item.diagnostic :: diagnostics rest

end

instance : Shown Datum := ⟨diagnostic⟩

def chars (values : List Char) : Datum :=
  list (values.map char)

def ofOption : Option Datum → Datum
  | .none => none
  | .some value => some value

/-- The character that a datum is; anything else counts as a question mark. -/
def toChar : Datum → Char
  | char value => value
  | _ => '?'

mutual

def flat? : Datum → Option String
  | char value => value.toString
  | text value => value
  | list items => flatItems? items
  | _ => .none

def flatItems? : List Datum → Option String
  | [] => ""
  | item :: rest =>
    match item.flat?, flatItems? rest with
    | .some first, .some others => first ++ others
    | _, _ => .none

end

def wordOr0 : Datum → Int64
  | word value => value
  | _ => 0

/-- How often a datum asks for something: a word up to a thousand, a digit for its value, and nothing else. -/
def count : Datum → Nat
  | word value => min value.toInt.toNat 1000
  | char value => if value.isDigit then value.toNat - '0'.toNat else 0
  | _ => 0

end Datum

end Caret.Workbench
