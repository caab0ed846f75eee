import Caret.Json.Options
import Caret.Number.Literal
import Caret.Proofs.Json.Members

/-!
The syntax of documents, told without a reader: which words stand for which values. A word is a list of tokens. Values
are built up by how many containers may be open at once, so `Value policy room` holds of the words that open no more
than `room`.
-/

namespace Caret.Json.Syntax

def Blanks (word : List Char) : Prop :=
  ∀ char ∈ word, Text.isBlank char = true

/-! ### Numbers -/

def Digits (word : List Char) : Prop :=
  ∀ char ∈ word, char.isDigit = true

inductive Sign : List Char → Prop
  | none : Sign []
  | minus : Sign ['-']

inductive Whole : List Char → Prop
  | zero : Whole ['0']
  | digits {first : Char} {rest : List Char} (digit : first.isDigit = true) (nonzero : first ≠ '0')
    (more : Digits rest) : Whole (first :: rest)

inductive Fraction : List Char → Prop
  | none : Fraction []
  | digits {word : List Char} (some : word ≠ []) (digits : Digits word) : Fraction ('.' :: word)

inductive Exponent : List Char → Prop
  | none : Exponent []
  | digits {marker : Char} {sign word : List Char} (marked : marker = 'e' ∨ marker = 'E')
    (signed : sign = [] ∨ sign = ['+'] ∨ sign = ['-']) (some : word ≠ []) (digits : Digits word) :
    Exponent (marker :: (sign ++ word))

inductive Numeral : List Char → Prop
  | parts {sign whole fraction exponent : List Char} (signed : Sign sign) (counted : Whole whole)
    (divided : Fraction fraction) (scaled : Exponent exponent) : Numeral (sign ++ whole ++ fraction ++ exponent)

/-! ### Strings -/

def lowerHex : List Char :=
  ['0', '1', '2', '3', '4', '5', '6', '7', '8', '9', 'a', 'b', 'c', 'd', 'e', 'f']

def upperHex : List Char :=
  ['0', '1', '2', '3', '4', '5', '6', '7', '8', '9', 'A', 'B', 'C', 'D', 'E', 'F']

/-- A hexadecimal digit of either case and its value. -/
def Hex (char : Char) (value : Nat) : Prop :=
  lowerHex[value]? = some char ∨ upperHex[value]? = some char

def escapes : List (Char × Char) :=
  [('"', '"'), ('\\', '\\'), ('/', '/'), ('b', '\x08'), ('f', '\x0c'), ('n', '\n'), ('r', '\r'), ('t', '\t')]

/-- The character with a code. A surrogate is no character and is replaced. -/
def Decoded (code : Nat) (char : Char) : Prop :=
  char.toNat = code ∨ 0xd800 ≤ code ∧ code ≤ 0xdfff ∧ char = '\ufffd'

inductive Item : List Char → Char → Prop
  | plain {char : Char} (unescaped : char ≠ '\\') (unquoted : char ≠ '"') : Item [char] char
  | escape {letter char : Char} (known : (letter, char) ∈ escapes) : Item ['\\', letter] char
  | code {first second third fourth char : Char} {thousands hundreds tens ones : Nat}
    (hex1 : Hex first thousands) (hex2 : Hex second hundreds) (hex3 : Hex third tens) (hex4 : Hex fourth ones)
    (decoded : Decoded (((thousands * 16 + hundreds) * 16 + tens) * 16 + ones) char) :
    Item ['\\', 'u', first, second, third, fourth] char

inductive Body : List Char → List Char → Prop
  | nil : Body [] []
  | cons {item word chars : List Char} {char : Char} (first : Item item char) (more : Body word chars) :
    Body (item ++ word) (char :: chars)

inductive Quoted : List Char → String → Prop
  | body {word chars : List Char} (inside : Body word chars) : Quoted ('"' :: (word ++ ['"'])) (String.ofList chars)

/-! ### Values -/

/-- Values that are no containers. A number counts if the literal reads to a finite one. -/
inductive Scalar : List Char → Json → Prop
  | null : Scalar ['n', 'u', 'l', 'l'] .null
  | true : Scalar ['t', 'r', 'u', 'e'] (.bool true)
  | false : Scalar ['f', 'a', 'l', 's', 'e'] (.bool false)
  | number {word : List Char} {value : Double} (numeral : Numeral word)
    (read : Double.ofText? (String.ofList word) = some value) (finite : value.isFinite = Bool.true) :
    Scalar word (.number value)
  | string {word : List Char} {text : String} (quoted : Quoted word text) : Scalar word (.string text)

section Lists

variable {α : Type} (Element : List Char → α → Prop)

inductive More : List Char → List α → Prop
  | nil : More [] []
  | cons {blanks word rest : List Char} {value : α} {values : List α} (blank : Blanks blanks)
    (element : Element word value) (more : More rest values) :
    More (',' :: (blanks ++ word ++ rest)) (value :: values)

inductive Listed : List Char → List α → Prop
  | nil : Listed [] []
  | cons {word rest : List Char} {value : α} {values : List α} (element : Element word value)
    (more : More Element rest values) : Listed (word ++ rest) (value :: values)

end Lists

section Containers

variable (Value : List Char → Json → Prop)

inductive Spaced : List Char → Json → Prop
  | mk {word blanks : List Char} {value : Json} (spelled : Value word value) (blank : Blanks blanks) :
    Spaced (word ++ blanks) value

inductive Member : List Char → String × Json → Prop
  | mk {name before after word last : List Char} {text : String} {value : Json} (named : Quoted name text)
    (blank : Blanks before) (blank' : Blanks after) (spelled : Value word value) (blank'' : Blanks last) :
    Member (name ++ before ++ ':' :: (after ++ (word ++ last))) (text, value)

inductive Container (policy : DuplicateKeys) : List Char → Json → Prop
  | array {blanks word : List Char} {items : List Json} (blank : Blanks blanks)
    (listed : Listed (Spaced Value) word items) : Container policy ('[' :: (blanks ++ word ++ [']'])) (.array items)
  | object {blanks word : List Char} {members object : List (String × Json)} (blank : Blanks blanks)
    (listed : Listed (Member Value) word members)
    (distinct : policy = .reject → (members.map Prod.fst).Nodup) (gathers : Members.Gathers members object) :
    Container policy ('\x7b' :: (blanks ++ word ++ ['\x7d'])) (.object object)

end Containers

/-- The words of values that open at most `room` containers at once. -/
def Value (policy : DuplicateKeys) : Nat → List Char → Json → Prop
  | 0, word, value => Scalar word value
  | room + 1, word, value => Scalar word value ∨ Container (Value policy room) policy word value

theorem Value.of_scalar {policy : DuplicateKeys} {room : Nat} {word : List Char} {value : Json}
    (scalar : Scalar word value) : Value policy room word value := by
  cases room with
  | zero => exact scalar
  | succ room => exact .inl scalar

inductive Document (options : Options) : List Char → Json → Prop
  | mk {before word after : List Char} {value : Json} (blank : Blanks before)
    (spelled : Value options.duplicateKeys options.maxDepth word value) (blank' : Blanks after) :
    Document options (before ++ word ++ after) value

end Caret.Json.Syntax
