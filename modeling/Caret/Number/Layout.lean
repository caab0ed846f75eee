import Caret.Number.Decimal

/-!
Numbers in text. A layout says which magnitudes are written without an exponent and whether whole numbers get a fraction.
-/

namespace Caret

structure Layout where
  /-- Whether a number whose first digit counts this power of ten is written without an exponent. -/
  isPositional : Int → Bool
  /-- Whether a whole number ends in `.0`. -/
  pointed : Bool

namespace Layout

/-- Numbers in documents: never an exponent, and no fraction where there is none. -/
def plain : Layout :=
  ⟨fun _ => true, false⟩

/-- Numbers in diagnostics: an exponent from `1e16` on and below `1e-4`, else at least one place. -/
def diagnostic : Layout :=
  ⟨fun power => -4 ≤ power && power < 16, true⟩

def zeros (count : Nat) : List Char :=
  List.replicate count '0'

def positional (pointed : Bool) (digits : List Char) (exponent : Int) : List Char :=
  let places := (-exponent).toNat
  if 0 ≤ exponent then digits ++ zeros exponent.toNat ++ (if pointed then ['.', '0'] else [])
  else if places < digits.length then
    digits.take (digits.length - places) ++ '.' :: digits.drop (digits.length - places)
  else '0' :: '.' :: zeros (places - digits.length) ++ digits

def scientific (digits : List Char) (power : Int) : List Char :=
  let fraction := if digits.length ≤ 1 then [] else '.' :: digits.drop 1
  digits.take 1 ++ fraction ++ 'e' :: (toString power).toList

def decimal (layout : Layout) (decimal : Decimal) : List Char :=
  let digits := Nat.toDigits 10 decimal.coefficient
  let power := digits.length + decimal.exponent - 1
  if layout.isPositional power then positional layout.pointed digits decimal.exponent
  else scientific digits power

def signed (negative : Bool) (chars : List Char) : List Char :=
  if negative then '-' :: chars else chars

def chars (layout : Layout) : Double → List Char
  | .nan => ['N', 'a', 'N']
  | .infinite negative => signed negative ['i', 'n', 'f']
  | .finite negative rank => signed negative (layout.decimal (.shortest rank))

end Layout

namespace Double

def chars (number : Double) : List Char :=
  Layout.plain.chars number

def text (number : Double) : String :=
  String.ofList number.chars

instance : Shown Double :=
  ⟨fun number => String.ofList (Layout.diagnostic.chars number)⟩

end Double

end Caret
