import Caret.Number.Double

/-!
The shortest decimal of a magnitude: of all decimals that read back as the magnitude, one with the fewest digits, and of
those the nearest. The search goes over grids of multiples of a power of ten, the coarsest first.
-/

namespace Caret

structure Decimal where
  coefficient : Nat
  exponent : Int
deriving DecidableEq, Repr

namespace Decimal

open Double

/-- Whether a decimal lies among the numbers that are rounded to a rank: between the middles to its two neighbours, with
the middles themselves for an even rank. -/
def readsAs (rank : Nat) (decimal : Decimal) : Bool :=
  let twice := decimal.coefficient * 10 ^ decimal.exponent.toNat * 2 ^ 1075
  let scale := 10 ^ (-decimal.exponent).toNat
  let low := (units (rank - 1) + units rank) * scale
  let high := (units rank + units (rank + 1)) * scale
  if rank % 2 = 0 then low ≤ twice && twice ≤ high else low < twice && twice < high

def onGrid (rank : Nat) (exponent : Int) : Nat × Nat :=
  (units rank * 10 ^ (-exponent).toNat, 2 ^ 1074 * 10 ^ exponent.toNat)

/-- The multiple of `10 ^ exponent` that reads back, if there is one. Of two the nearer is taken, and the upper one if
they are equally near. -/
def hit? (rank : Nat) (exponent : Int) : Option Nat :=
  let (numerator, denominator) := onGrid rank exponent
  let low := numerator / denominator
  match readsAs rank ⟨low, exponent⟩, readsAs rank ⟨low + 1, exponent⟩ with
  | true, true => some (if 2 * numerator < (2 * low + 1) * denominator then low else low + 1)
  | true, false => some low
  | false, true => some (low + 1)
  | false, false => none

def exact (rank : Nat) : Decimal :=
  ⟨units rank * 5 ^ 1074, -1074⟩

def search (rank : Nat) : Nat → Int → Decimal
  | 0, _ => exact rank
  | count + 1, exponent =>
    match hit? rank exponent with
    | some coefficient => ⟨coefficient, exponent⟩
    | none => search rank count (exponent - 1)

def ceiling (rank : Nat) : Int :=
  ((units rank).log2 - 1073 : Int) * 30103 / 100000 + 1

/-- Seventeen digits always suffice, so the grids tried reach a hit. -/
def shortest (rank : Nat) : Decimal :=
  if rank = 0 then ⟨0, 0⟩ else search rank 20 (ceiling rank)

end Decimal

end Caret
