import Caret.Number.Layout
import Caret.Proofs.Json.Numeral
import Caret.Proofs.Number.Rounding

/-!
Printing numbers. Without an exponent, a decimal is written as the spelling of a proper literal with the same digits; for
the shortest decimal of a finite number the literal reads back as the number itself, bit for bit.
-/

namespace Caret

open Json.Syntax

/-! ### Decimal digits -/

theorem digitsValue_eq (digits : List Char) : digitsValue digits = Nat.ofDigitChars 10 digits 0 := by
  rw [Nat.ofDigitChars_eq_foldl]
  rfl

theorem head_toDigits {number : Nat} (positive : 0 < number) :
    ∀ first ∈ (Nat.toDigits 10 number).head?, first ≠ '0' := by
  induction number using Nat.strongRecOn with
  | ind number ih =>
    intro first member
    by_cases short : number < 10
    · rw [Nat.toDigits_of_lt_base short] at member
      cases member
      exact (show ∀ digit < 10, 0 < digit → digit.digitChar ≠ '0' by decide) number short positive
    · obtain ⟨digit, digits, same⟩ := List.exists_cons_of_ne_nil (Nat.toDigits_ne_nil (n := number / 10) (b := 10))
      have before := ih (number / 10) (by omega) (by omega)
      rw [same] at before
      rw [Nat.toDigits_of_base_le (by decide) (by omega), same] at member
      exact before first member

/-- The digits of a number are digits, at least one, and the first is no zero unless the number is. -/
theorem exists_toDigits (number : Nat) :
    ∃ first rest, Nat.toDigits 10 number = first :: rest ∧ first.isDigit = true ∧ Digits rest ∧
      (0 < number → first ≠ '0') := by
  cases same : Nat.toDigits 10 number with
  | nil => exact absurd same Nat.toDigits_ne_nil
  | cons first rest =>
    have every : ∀ char ∈ first :: rest, char.isDigit = true := by
      intro char member
      rw [← same] at member
      exact Nat.isDigit_of_mem_toDigits (by decide) (by decide) member
    refine ⟨first, rest, rfl, every first (by simp), fun char member => every char (by simp [member]), ?_⟩
    intro positive
    exact head_toDigits positive first (by simp [same])

theorem digits_zeros (count : Nat) : Digits (Layout.zeros count) := by
  intro char member
  rw [List.eq_of_mem_replicate member]
  rfl

/-! ### Literals of decimals -/

namespace Literal

def ofDecimal (negative : Bool) (decimal : Decimal) : Literal :=
  let digits := Nat.toDigits 10 decimal.coefficient
  let places := (-decimal.exponent).toNat
  if 0 ≤ decimal.exponent then ⟨negative, digits ++ Layout.zeros decimal.exponent.toNat, [], none⟩
  else if places < digits.length then
    ⟨negative, digits.take (digits.length - places), digits.drop (digits.length - places), none⟩
  else ⟨negative, ['0'], Layout.zeros (places - digits.length) ++ digits, none⟩

theorem spelled_ofDecimal (negative : Bool) (decimal : Decimal) (marker : Char) :
    (ofDecimal negative decimal).spelled marker = Layout.signed negative (Layout.plain.decimal decimal) := by
  have some : Nat.toDigits 10 decimal.coefficient ≠ [] := Nat.toDigits_ne_nil
  have front : ∀ chars, minus negative ++ chars = Layout.signed negative chars := by
    intro chars
    cases negative <;> rfl
  unfold ofDecimal Layout.decimal Layout.plain Layout.positional
  dsimp only
  rw [if_pos rfl]
  split
  · simp only [spelled, pointed, raised, if_pos, front, List.append_nil, Bool.false_eq_true, if_false]
  · split
    · next fraction =>
      have rest : (Nat.toDigits 10 decimal.coefficient).drop
          ((Nat.toDigits 10 decimal.coefficient).length - (-decimal.exponent).toNat) ≠ [] := by
        rw [ne_eq, List.drop_eq_nil_iff]
        omega
      simp only [spelled, pointed, raised, rest, front, List.append_nil, if_false]
    · have rest : Layout.zeros ((-decimal.exponent).toNat - (Nat.toDigits 10 decimal.coefficient).length) ++
          Nat.toDigits 10 decimal.coefficient ≠ [] := by simp [some]
      simp only [spelled, pointed, raised, rest, front, List.append_nil, if_false]
      rfl

theorem proper_ofDecimal (negative : Bool) {decimal : Decimal} (zero : decimal.coefficient = 0 → decimal.exponent = 0) :
    (ofDecimal negative decimal).Proper := by
  obtain ⟨first, rest, same, digit, digits, nonzero⟩ := exists_toDigits decimal.coefficient
  have all : Digits (Nat.toDigits 10 decimal.coefficient) := by
    rw [same]
    simpa [Digits, digit] using digits
  unfold ofDecimal
  dsimp only
  split
  · next whole =>
    refine ⟨?_, by simp [Digits], by simp⟩
    by_cases positive : 0 < decimal.coefficient
    · rw [same]
      refine Whole.digits digit (nonzero positive) ?_
      intro char member
      rcases List.mem_append.mp member with member | member
      · exact digits char member
      · exact digits_zeros _ char member
    · have none : decimal.coefficient = 0 := by omega
      simp only [none, zero none, Nat.toDigits_zero]
      exact Whole.zero
  · have positive : 0 < decimal.coefficient := by omega
    split
    · next short =>
      refine ⟨?_, fun char member => all char (List.mem_of_mem_drop member), by simp⟩
      obtain ⟨count, counted⟩ : ∃ count,
          (Nat.toDigits 10 decimal.coefficient).length - (-decimal.exponent).toNat = count + 1 :=
        ⟨(Nat.toDigits 10 decimal.coefficient).length - (-decimal.exponent).toNat - 1, by omega⟩
      rw [counted, same, List.take_succ_cons]
      exact Whole.digits digit (nonzero positive) fun char member => digits char (List.mem_of_mem_take member)
    · refine ⟨Whole.zero, ?_, by simp⟩
      intro char member
      rcases List.mem_append.mp member with member | member
      · exact digits_zeros _ char member
      · exact all char member

theorem digitsValue_ofDecimal (negative : Bool) (decimal : Decimal) :
    digitsValue ((ofDecimal negative decimal).whole ++ (ofDecimal negative decimal).fraction) =
      decimal.coefficient * 10 ^ decimal.exponent.toNat := by
  have value : Nat.ofDigitChars 10 (Nat.toDigits 10 decimal.coefficient) 0 = decimal.coefficient :=
    Nat.ofDigitChars_ten_toDigits
  unfold ofDecimal Layout.zeros
  dsimp only
  rw [digitsValue_eq]
  split
  · rw [List.append_nil, Nat.ofDigitChars_append, Nat.ofDigitChars_replicate_zero, value, Nat.mul_comm]
  · have none : decimal.exponent.toNat = 0 := by omega
    rw [none, Nat.pow_zero, Nat.mul_one]
    split
    · rw [List.take_append_drop, value]
    · rw [Nat.ofDigitChars_append, Nat.ofDigitChars_append, Nat.ofDigitChars_replicate_zero]
      exact value

theorem length_fraction_ofDecimal (negative : Bool) (decimal : Decimal) :
    (ofDecimal negative decimal).fraction.length = (-decimal.exponent).toNat := by
  unfold ofDecimal Layout.zeros
  dsimp only
  split
  · simp only [List.length_nil]
    omega
  · split
    · rw [List.length_drop]
      omega
    · rw [List.length_append, List.length_replicate]
      omega

theorem value_ofDecimal (negative : Bool) (decimal : Decimal) :
    (ofDecimal negative decimal).value =
      Double.ofDecimal negative (decimal.coefficient * 10 ^ decimal.exponent.toNat)
        (-((-decimal.exponent).toNat : Int)) := by
  have sign : (ofDecimal negative decimal).negative = negative := by
    unfold ofDecimal
    dsimp only
    split <;> (try split) <;> rfl
  have power : (ofDecimal negative decimal).power = none := by
    unfold ofDecimal
    dsimp only
    split <;> (try split) <;> rfl
  unfold value
  rw [sign, power, digitsValue_ofDecimal, length_fraction_ofDecimal, Option.map_none, Option.getD_none]
  dsimp only
  rw [Int.zero_sub]

end Literal

/-! ### Finite numbers -/

namespace Double

def literal (negative : Bool) (rank : Fin ranks) : Literal :=
  .ofDecimal negative (.shortest rank)

variable (negative : Bool) (rank : Fin ranks)

theorem spelled_literal (marker : Char) : (literal negative rank).spelled marker = (finite negative rank).chars :=
  Literal.spelled_ofDecimal negative (.shortest rank) marker

theorem proper_literal : (literal negative rank).Proper := by
  refine Literal.proper_ofDecimal negative ?_
  intro zero
  by_cases some : 0 < rank.val
  · have around := around_of_readsAs (readsAs_shortest some)
    have positive : 0 < 10 ^ (-(Decimal.shortest rank).exponent).toNat := Nat.pow_pos (by decide)
    have below := le_of_around some around
    simp only [zero, Nat.zero_mul] at below
    omega
  · unfold Decimal.shortest
    rw [if_pos (by omega)]

/-- A finite number is printed as a literal with that very number as its value. -/
theorem value_literal : (literal negative rank).value = finite negative rank := by
  unfold literal
  rw [Literal.value_ofDecimal]
  by_cases some : 0 < rank.val
  · exact ofDecimal_of_around some rank.isLt (around_of_readsAs (readsAs_shortest some)) negative
  · have none : rank = ⟨0, by decide⟩ := Fin.ext (show rank.val = 0 by omega)
    subst none
    rfl

variable {number : Double}

theorem numeral_chars (finite : number.isFinite = true) : Numeral number.chars := by
  cases number with
  | nan => simp [isFinite] at finite
  | infinite => simp [isFinite] at finite
  | finite negative rank =>
    rw [← spelled_literal negative rank 'e']
    exact numeral_spelled (proper_literal negative rank) (.inl rfl)

theorem ofText?_text (finite : number.isFinite = true) : ofText? number.text = some number := by
  cases number with
  | nan => simp [isFinite] at finite
  | infinite => simp [isFinite] at finite
  | finite negative rank =>
    unfold text
    rw [← spelled_literal negative rank 'e', Literal.ofText?_spelled (proper_literal negative rank) (.inl rfl),
      value_literal]

end Double

end Caret
