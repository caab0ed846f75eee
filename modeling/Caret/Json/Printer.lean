import Caret.Json.Value

/-!
JSON values as text: compact documents without blanks, on one line, and the diagnostic form.
-/

namespace Caret.Json

def hex4 (code : Nat) : List Char :=
  let digits := Nat.toDigits 16 code
  List.replicate (4 - digits.length) '0' ++ digits

def escaped (char : Char) : List Char :=
  match char with
  | '"' => ['\\', '"']
  | '\\' => ['\\', '\\']
  | '\n' => ['\\', 'n']
  | '\r' => ['\\', 'r']
  | '\t' => ['\\', 't']
  | '\x08' => ['\\', 'b']
  | '\x0c' => ['\\', 'f']
  | char => if Text.isControl char then '\\' :: 'u' :: hex4 char.toNat else [char]

def quoted (text : String) : List Char :=
  '"' :: text.toList.flatMap escaped ++ ['"']

/-- A number that has no literal is written as `null`. -/
def numberChars (number : Double) : List Char :=
  if number.isFinite then number.chars else ['n', 'u', 'l', 'l']

mutual

def chars : Json → List Char
  | null => ['n', 'u', 'l', 'l']
  | bool true => ['t', 'r', 'u', 'e']
  | bool false => ['f', 'a', 'l', 's', 'e']
  | number value => numberChars value
  | string value => quoted value
  | array items => '[' :: itemsChars items ++ [']']
  | object members => '\x7b' :: membersChars members ++ ['\x7d']

def itemsChars : List Json → List Char
  | [] => []
  | item :: rest => item.chars ++ moreItemsChars rest

def moreItemsChars : List Json → List Char
  | [] => []
  | item :: rest => ',' :: item.chars ++ moreItemsChars rest

def membersChars : List (String × Json) → List Char
  | [] => []
  | (name, value) :: rest => quoted name ++ ':' :: value.chars ++ moreMembersChars rest

def moreMembersChars : List (String × Json) → List Char
  | [] => []
  | (name, value) :: rest => ',' :: quoted name ++ ':' :: value.chars ++ moreMembersChars rest

end

def text (value : Json) : String :=
  String.ofList value.chars

mutual

def diagnostic : Json → String
  | null => "Null"
  | bool value => "Bool(" ++ shown value ++ ")"
  | number value => "Number(" ++ shown value ++ ")"
  | string value => "String(" ++ shown value ++ ")"
  | array items => "Array([" ++ ", ".intercalate (itemDiagnostics items) ++ "])"
  | object members => "Object(\x7b" ++ ", ".intercalate (memberDiagnostics members) ++ "\x7d)"

def itemDiagnostics : List Json → List String
  | [] => []
  | item :: rest => item.diagnostic :: itemDiagnostics rest

def memberDiagnostics : List (String × Json) → List String
  | [] => []
  | (name, value) :: rest => (shown name ++ ": " ++ value.diagnostic) :: memberDiagnostics rest

end

instance : Shown Json := ⟨diagnostic⟩

end Caret.Json
