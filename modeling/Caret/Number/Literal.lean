import Caret.Number.Double

/-!
Number literals: a sign, digits, a fraction and an exponent, and the numbers they denote.
-/

namespace Caret

def digitValue (digit : Char) : Nat :=
  digit.toNat - '0'.toNat

def digitsValue (digits : List Char) : Nat :=
  digits.foldl (fun value digit => 10 * value + digitValue digit) 0

def signedValue (negative : Bool) (digits : List Char) : Int :=
  if negative then -(digitsValue digits : Int) else digitsValue digits

def fits (value : Int) : Bool :=
  -2 ^ 63 ≤ value && value < 2 ^ 63

def toWord? (value : Int) : Option Int64 :=
  if fits value then some (Int64.ofInt value) else none

def wordOfText? (text : String) : Option Int64 :=
  let (negative, digits) := match text.toList with
    | '-' :: digits => (true, digits)
    | '+' :: digits => (false, digits)
    | digits => (false, digits)
  if digits.isEmpty || !digits.all Char.isDigit then none else toWord? (signedValue negative digits)

structure Power where
  sign : Option Char
  digits : List Char
deriving DecidableEq, Repr

namespace Power

/-- Once the digits of a power reach this, the ones after them are not counted. -/
def enough : Nat := 2 ^ 16

def size (power : Power) : Nat :=
  power.digits.foldl (fun value digit => if value < enough then 10 * value + digitValue digit else value) 0

def value (power : Power) : Int :=
  if power.sign == some '-' then -(power.size : Int) else power.size

end Power

/-- A literal without a fraction has no digits there. -/
structure Literal where
  negative : Bool
  whole : List Char
  fraction : List Char := []
  power : Option Power := none
deriving DecidableEq, Repr

namespace Literal

/-- The literal with `e` before its power. -/
def chars (literal : Literal) : List Char :=
  (if literal.negative then ['-'] else []) ++ literal.whole
    ++ (if literal.fraction.isEmpty then [] else '.' :: literal.fraction)
    ++ (match literal.power with
      | none => []
      | some power => 'e' :: power.sign.toList ++ power.digits)

def text (literal : Literal) : String :=
  String.ofList literal.chars

def value (literal : Literal) : Double :=
  let power := (literal.power.map Power.value).getD 0
  Double.ofDecimal literal.negative (digitsValue (literal.whole ++ literal.fraction)) (power - literal.fraction.length)

def power? : List Char → Option Power
  | [] => none
  | char :: rest =>
    let (sign, digits) := if char == '+' || char == '-' then (some char, rest) else (none, char :: rest)
    if digits.isEmpty || !digits.all Char.isDigit then none else some ⟨sign, digits⟩

/-- The literal that a text is as a whole; digits may be missing on one side of the point. -/
def ofUnsigned? (negative : Bool) (chars : List Char) : Option Literal :=
  let whole := chars.takeWhile Char.isDigit
  let (fraction, rest) := match chars.dropWhile Char.isDigit with
    | '.' :: rest => (rest.takeWhile Char.isDigit, rest.dropWhile Char.isDigit)
    | rest => ([], rest)
  if whole.isEmpty && fraction.isEmpty then none
  else match rest with
    | [] => some { negative, whole, fraction }
    | marker :: rest =>
      if marker.toLower == 'e' then (power? rest).map fun power => { negative, whole, fraction, power }
      else none

end Literal

namespace Double

def ofUnsigned? (negative : Bool) (chars : List Char) : Option Double :=
  match String.ofList (chars.map Char.toLower) with
  | "nan" => some nan
  | "inf" => some (infinite negative)
  | "infinity" => some (infinite negative)
  | _ => (Literal.ofUnsigned? negative chars).map Literal.value

def ofText? (text : String) : Option Double :=
  match text.toList with
  | '-' :: chars => ofUnsigned? true chars
  | '+' :: chars => ofUnsigned? false chars
  | chars => ofUnsigned? false chars

end Double

end Caret
