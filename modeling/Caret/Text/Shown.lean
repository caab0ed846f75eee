import Caret.Text.Unprintable

/-!
The diagnostic form of values, the one that logs and reports use: text in quotes with escapes, lists in brackets, pairs
in parentheses, records with named fields.
-/

namespace Caret

universe u

class Shown (α : Type u) where
  shown : α → String

export Shown (shown)

namespace Text

def escaped (mark char : Char) : List Char :=
  match char with
  | '\x00' => ['\\', '0']
  | '\t' => ['\\', 't']
  | '\n' => ['\\', 'n']
  | '\r' => ['\\', 'r']
  | '\\' => ['\\', '\\']
  | char =>
    if char = mark then ['\\', char]
    else if char.toNat < 0x7f && 0x20 ≤ char.toNat then [char]
    else if isUnprintable char then ['\\', 'u', '\x7b'] ++ Nat.toDigits 16 char.toNat ++ ['\x7d']
    else [char]

def quoted (mark : Char) (chars : List Char) : String :=
  String.ofList (mark :: chars.flatMap (escaped mark) ++ [mark])

def record (name : String) (fields : List (String × String)) : String :=
  name ++ " \x7b " ++ ", ".intercalate (fields.map fun (field, value) => field ++ ": " ++ value) ++ " \x7d"

end Text

instance : Shown Unit := ⟨fun _ => "()"⟩

instance : Shown Bool := ⟨fun value => if value then "true" else "false"⟩

instance : Shown Nat := ⟨toString⟩

instance : Shown Int64 := ⟨fun value => toString value.toInt⟩

instance : Shown Char := ⟨fun char => Text.quoted '\'' [char]⟩

instance : Shown String := ⟨fun text => Text.quoted '"' text.toList⟩

instance {α : Type} [Shown α] : Shown (List α) :=
  ⟨fun values => "[" ++ ", ".intercalate (values.map shown) ++ "]"⟩

instance {α β : Type} [Shown α] [Shown β] : Shown (α × β) :=
  ⟨fun (first, second) => "(" ++ shown first ++ ", " ++ shown second ++ ")"⟩

instance {α : Type} [Shown α] : Shown (Option α) :=
  ⟨fun
    | none => "None"
    | some value => "Some(" ++ shown value ++ ")"⟩

end Caret
