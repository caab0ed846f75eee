import Caret.Text.Shown

/-!
Numbers of double precision as data. The finite magnitudes are numbered by rank, in order of size; each is a whole number
of `units`, and a unit is the smallest magnitude above zero, two to the power -1074. Decimals are read exactly and
rounded once, to the nearest rank and in a tie to the even one.
-/

namespace Caret

-- Powers of numbers are those of the core library, also where another library has powers of its own.
attribute [instance (1100), default_instance 20000] instPowNat

/-- How many finite magnitudes there are. The next rank would be infinite. -/
def ranks : Nat :=
  2047 * 2 ^ 52

inductive Double where
  | nan
  | infinite (negative : Bool)
  | finite (negative : Bool) (rank : Fin ranks)
deriving DecidableEq

namespace Double

def isFinite : Double → Bool
  | finite _ _ => true
  | _ => false

/-- Equality of numbers: the two zeros are equal, and no number equals `nan`. -/
def equals : Double → Double → Bool
  | finite negative rank, finite negative' rank' => rank == rank' && (negative == negative' || rank.val == 0)
  | infinite negative, infinite negative' => negative == negative'
  | _, _ => false

def units (rank : Nat) : Nat :=
  if rank < 2 ^ 52 then rank else (2 ^ 52 + rank % 2 ^ 52) * 2 ^ (rank / 2 ^ 52 - 1)

def floorRank (count : Nat) : Nat :=
  let shift := count.log2 - 52
  shift * 2 ^ 52 + count / 2 ^ shift

/-- The rank nearest to a quotient of units; halfway between two ranks, the even one. -/
def nearestRank (numerator denominator : Nat) : Nat :=
  let low := floorRank (numerator / denominator)
  let middle := (units low + units (low + 1)) * denominator
  if 2 * numerator < middle then low
  else if middle < 2 * numerator then low + 1
  else low + low % 2

def ofRatio (negative : Bool) (numerator denominator : Nat) : Double :=
  let rank := nearestRank (numerator * 2 ^ 1074) denominator
  if bound : rank < ranks then finite negative ⟨rank, bound⟩ else infinite negative

def zero (negative : Bool) : Double :=
  finite negative ⟨0, by decide⟩

/-- The number nearest to `coefficient * 10 ^ exponent`. Far outside the range of magnitudes the answer is known without
the quotient. -/
def ofDecimal (negative : Bool) (coefficient : Nat) (exponent : Int) : Double :=
  if coefficient = 0 then zero negative
  else if 400 < exponent then infinite negative
  else if coefficient.log2 + 1 + exponent < -400 then zero negative
  else ofRatio negative (coefficient * 10 ^ exponent.toNat) (10 ^ (-exponent).toNat)

end Double

end Caret
