import Caret.Parser.Numerals
import Caret.Json.Options
import Caret.Json.Printer

/-!
The JSON grammar. Every rule has a label of its own, so a failure names the construct that gave up. Values are recursive:
containers hold values through the reference `link`, which is to lead to `alternatives`.
-/

namespace Caret.Json

open Caret.Parser

variable {Ref : Type → Type}

/-! ### Scalars -/

def nullRule : Parser Ref Json :=
  ((Parser.text "null").mapTo null).withLabel "null"

def boolRule : Parser Ref Json :=
  (((Parser.text "true").mapTo (bool true)).orElse ((Parser.text "false").mapTo (bool false))).withLabel "bool"

def unescapedChar : Parser Ref Char :=
  satisfy (fun char => char != '\\' && char != '"') "char"

def shortEscapes : List (String × Char) :=
  [("\\\\", '\\'), ("\\/", '/'), ("\\b", '\x08'), ("\\f", '\x0c'), ("\\n", '\n'), ("\\r", '\r'), ("\\t", '\t')]

def shortEscape (escape : String × Char) : Parser Ref Char :=
  (Parser.text escape.1).mapTo escape.2

def escapedChar : Parser Ref Char :=
  (choice (shortEscape ("\\\"", '"')) (shortEscapes.map shortEscape)).withLabel "escaped char"

def isHexDigit (char : Char) : Bool :=
  char.isDigit || ('a' ≤ char && char ≤ 'f') || ('A' ≤ char && char ≤ 'F')

def hexDigitValue (digit : Char) : Nat :=
  if digit.isDigit then digit.toNat - '0'.toNat else digit.toLower.toNat - 'a'.toNat + 10

def hexValue (digits : List Char) : Nat :=
  digits.foldl (fun value digit => 16 * value + hexDigitValue digit) 0

/-- The character with this code point. One half of a surrogate pair is no character and is replaced. -/
def charOfCode (code : Nat) : Char :=
  if code.isValidChar then Char.ofNat code else '\ufffd'

def unicodeChar : Parser Ref Char :=
  let hexDigit := satisfy isHexDigit "hex digit"
  ((((char '\\').keepRight (char 'u')).keepRight (sequence (List.replicate 4 hexDigit))).map
    fun digits => charOfCode (hexValue digits)).withLabel "unicode char"

def stringChar : Parser Ref Char :=
  (unescapedChar.orElse escapedChar).orElse unicodeChar

def quotedString : Parser Ref String :=
  let quote := (char '"').withLabel "quote"
  (between quote (manyChars stringChar) quote).withLabel "quoted string"

def stringRule : Parser Ref Json :=
  (quotedString.map string).withLabel "quoted string"

/-- Zero alone, or digits that do not begin with zero. -/
def wholeDigits : Parser Ref (List Char) :=
  let zero := (Parser.text "0").map String.toList
  let nonZero := satisfy (fun char => char.isDigit && char != '0') "1-9"
  zero.orElse ((nonZero.andThen digit.many).map fun (first, rest) => first :: rest)

def fractionDigits : Parser Ref (List Char) :=
  (char '.').keepRight digits

def power : Parser Ref Power :=
  ((char 'e').orElse (char 'E')).keepRight
    ((((char '-').orElse (char '+')).opt.andThen digits).map fun (sign, digits) => ⟨sign, digits⟩)

def literal : Parser Ref Literal :=
  ((((char '-').opt.andThen wholeDigits).andThen fractionDigits.opt).andThen power.opt).map
    fun (((sign, whole), fraction), power) =>
      { negative := sign.isSome, whole, fraction := fraction.getD [], power }

def numberOf (literal : Literal) : Except String Json :=
  let value := literal.value
  if value.isFinite then .ok (number value) else .error s!"Number out of range '{literal.text}'"

def numberRule : Parser Ref Json :=
  (literal.tryMap numberOf).withLabel "number"

/-! ### Containers -/

def token (expected : Char) : Parser Ref Char :=
  (char expected).keepLeft spaces

def arrayRule (value : Parser Ref Json) : Parser Ref Json :=
  let item := value.keepLeft spaces
  ((between (token '[') (item.sepBy (token ',')) (token ']')).map array).withLabel "array"

def duplicateKey (name : String) : Event :=
  ⟨.detail, s!"duplicate key {shown name}, keeping the later value"⟩

def overwrite (gathered : List (String × Json) × Log) (member : String × Json) : List (String × Json) × Log :=
  (Members.insert member.1 member.2 gathered.1,
    if (Members.find? member.1 gathered.1).isSome then gathered.2 ++ [duplicateKey member.1] else gathered.2)

def lastWins (members : List (String × Json)) : List (String × Json) × Log :=
  members.foldl overwrite ([], [])

def addDistinct (object : List (String × Json)) (member : String × Json) : Except String (List (String × Json)) :=
  if (Members.find? member.1 object).isSome then .error s!"Duplicate key {shown member.1}"
  else .ok (Members.insert member.1 member.2 object)

/-- The object that members make, up to the first name that occurs again. -/
def distinctMembers (members : List (String × Json)) : Except String (List (String × Json)) :=
  members.foldlM addDistinct []

def collected (policy : DuplicateKeys) (members : Parser Ref (List (String × Json))) :
    Parser Ref (List (String × Json)) :=
  match policy with
  | .lastWins => (members.reporting fun members => (lastWins members).2).map fun members => (lastWins members).1
  | .reject => members.tryMap distinctMembers

def objectRule (value : Parser Ref Json) (policy : DuplicateKeys) : Parser Ref Json :=
  let name := quotedString.keepLeft spaces
  let member := (name.keepLeft (token ':')).andThen (value.keepLeft spaces)
  ((between (spaces.keepRight (token '\x7b')) (collected policy (member.sepBy (token ','))) (token '\x7d')).map
    object).withLabel "object"

/-! ### Grammar -/

def limited (gauge limit : Nat) (opener : Char) (container : Parser Ref Json) : Parser Ref Json :=
  ⟨container.label, .nested gauge container.label opener limit container.rule⟩

/-- The rules of a grammar whose depth stands on `gauge`. -/
structure Grammar (Ref : Type → Type) where
  options : Options
  gauge : Nat
  value : Parser Ref Json
  array : Parser Ref Json
  object : Parser Ref Json
  alternatives : Parser Ref Json
  /-- One value with blanks around it and nothing else. -/
  document : Parser Ref Json

namespace Grammar

def ofLink (link : Ref Json) (gauge : Nat) (options : Options) : Grammar Ref :=
  let value := forward "value" link
  let array := limited gauge options.maxDepth '[' (arrayRule value)
  let object := limited gauge options.maxDepth '\x7b' (objectRule value options.duplicateKeys)
  { options, gauge, value, array, object
    alternatives := choice nullRule [boolRule, numberRule, stringRule, array, object]
    document := ((spaces.keepRight value).keepLeft spaces).keepLeft finish }

def opening (options : Options) : Log :=
  [⟨.detail, s!"building JSON grammar with {shown options}"⟩, .wired "value"]

instance : Shown (Grammar Ref) :=
  ⟨fun grammar => "JsonGrammar \x7b options: " ++ shown grammar.options ++ ", .. \x7d"⟩

end Grammar

end Caret.Json
