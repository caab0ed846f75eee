import Caret.Number.Decimal

/-!
Rounding to the nearest rank. Ranks count magnitudes upwards, so among the magnitudes below a quotient there is a last
one, and the quotient is rounded to it or to the next. A decimal that lies between the middles around a rank is therefore
read back as that rank.
-/

namespace Caret.Double

/-! ### Magnitudes in order -/

/-- A rank is a shift and a mantissa of fifty-three bits; the shift is zero for the magnitudes with fewer. -/
theorem units_of_mantissa {shift mantissa : Nat} (low : shift = 0 ∨ 2 ^ 52 ≤ mantissa) (high : mantissa ≤ 2 ^ 53) :
    units (shift * 2 ^ 52 + mantissa) = mantissa * 2 ^ shift := by
  unfold units
  by_cases small : mantissa < 2 ^ 52
  · obtain rfl : shift = 0 := by omega
    rw [if_pos (by omega)]
    omega
  · rw [if_neg (by omega)]
    by_cases full : mantissa = 2 ^ 53
    · have rest : (shift * 2 ^ 52 + mantissa) % 2 ^ 52 = 0 := by omega
      have times : (shift * 2 ^ 52 + mantissa) / 2 ^ 52 - 1 = shift + 1 := by omega
      rw [rest, times, full, Nat.pow_succ]
      omega
    · have rest : (shift * 2 ^ 52 + mantissa) % 2 ^ 52 = mantissa - 2 ^ 52 := by omega
      have times : (shift * 2 ^ 52 + mantissa) / 2 ^ 52 - 1 = shift := by omega
      have whole : 2 ^ 52 + (mantissa - 2 ^ 52) = mantissa := by omega
      rw [rest, times, whole]

theorem exists_mantissa (rank : Nat) :
    ∃ shift mantissa, rank = shift * 2 ^ 52 + mantissa ∧ (shift = 0 ∨ 2 ^ 52 ≤ mantissa) ∧ mantissa < 2 ^ 53 := by
  by_cases small : rank < 2 ^ 52
  · exact ⟨0, rank, by omega, .inl rfl, by omega⟩
  · exact ⟨rank / 2 ^ 52 - 1, 2 ^ 52 + rank % 2 ^ 52, by omega, .inr (by omega), by omega⟩

theorem units_lt_succ (rank : Nat) : units rank < units (rank + 1) := by
  obtain ⟨shift, mantissa, rfl, low, high⟩ := exists_mantissa rank
  have next : shift = 0 ∨ 2 ^ 52 ≤ mantissa + 1 := by omega
  rw [units_of_mantissa low (by omega), Nat.add_assoc, units_of_mantissa next (by omega)]
  exact Nat.mul_lt_mul_of_pos_right (Nat.lt_succ_self mantissa) (Nat.two_pow_pos shift)

theorem units_le_of_le {rank other : Nat} (le : rank ≤ other) : units rank ≤ units other := by
  induction le with
  | refl => exact Nat.le_refl _
  | step _ ih => exact Nat.le_trans ih (Nat.le_of_lt (units_lt_succ _))

theorem lt_of_units_lt {rank other : Nat} (less : units rank < units other) : rank < other := by
  by_cases le : other ≤ rank
  · exact absurd (units_le_of_le le) (by omega)
  · omega

/-- The last magnitude that a count of units reaches. -/
theorem units_floorRank (count : Nat) : units (floorRank count) ≤ count ∧ count < units (floorRank count + 1) := by
  have high : count < 2 ^ 53 * 2 ^ (count.log2 - 52) := by
    calc
      count < 2 ^ (count.log2 + 1) := Nat.lt_log2_self
      _ ≤ 2 ^ (53 + (count.log2 - 52)) := Nat.pow_le_pow_right (by decide) (by omega)
      _ = 2 ^ 53 * 2 ^ (count.log2 - 52) := Nat.pow_add ..
  have mantissa : count / 2 ^ (count.log2 - 52) < 2 ^ 53 := Nat.div_lt_of_lt_mul (by rwa [Nat.mul_comm])
  have low : count.log2 - 52 = 0 ∨ 2 ^ 52 ≤ count / 2 ^ (count.log2 - 52) := by
    by_cases small : count.log2 ≤ 52
    · exact .inl (by omega)
    · refine .inr ((Nat.le_div_iff_mul_le (Nat.two_pow_pos _)).mpr ?_)
      have some : count ≠ 0 := fun zero => by simp [zero] at small
      have split : 2 ^ 52 * 2 ^ (count.log2 - 52) = 2 ^ count.log2 := by
        rw [← Nat.pow_add]
        congr 1
        omega
      rw [split]
      exact Nat.log2_self_le some
  unfold floorRank
  dsimp only
  rw [Nat.add_assoc, units_of_mantissa low (by omega), units_of_mantissa (by omega) (by omega)]
  exact ⟨Nat.div_mul_le_self count _, Nat.lt_mul_of_div_lt (Nat.lt_succ_self _) (Nat.two_pow_pos _)⟩

/-! ### Rounding a quotient -/

/-- A quotient lies between the middles around a rank, and strictly so around an odd one. -/
def Around (rank numerator denominator : Nat) : Prop :=
  (units (rank - 1) + units rank) * denominator ≤ 2 * numerator ∧
    2 * numerator ≤ (units rank + units (rank + 1)) * denominator ∧
    (rank % 2 = 1 → (units (rank - 1) + units rank) * denominator < 2 * numerator ∧
      2 * numerator < (units rank + units (rank + 1)) * denominator)

theorem nearestRank_of_around {rank numerator denominator : Nat} (some : 0 < rank) (positive : 0 < denominator)
    (around : Around rank numerator denominator) : nearestRank numerator denominator = rank := by
  obtain ⟨below, above, odd⟩ := around
  obtain ⟨least, next⟩ := units_floorRank (numerator / denominator)
  have reached : units (floorRank (numerator / denominator)) * denominator ≤ numerator :=
    (Nat.le_div_iff_mul_le positive).mp least
  have missed : numerator < units (floorRank (numerator / denominator) + 1) * denominator :=
    (Nat.div_lt_iff_lt_mul positive).mp next
  have before : units (rank - 1) * denominator < units rank * denominator := by
    have less := units_lt_succ (rank - 1)
    rw [Nat.sub_add_cancel some] at less
    exact Nat.mul_lt_mul_of_pos_right less positive
  have after : units rank * denominator < units (rank + 1) * denominator :=
    Nat.mul_lt_mul_of_pos_right (units_lt_succ rank) positive
  unfold nearestRank
  dsimp only
  rw [Nat.add_mul] at below above odd ⊢
  rw [Nat.add_mul] at odd
  generalize floorRank (numerator / denominator) = low at reached missed ⊢
  by_cases short : numerator < units rank * denominator
  · -- The last magnitude reached is the one before.
    have one : low < rank := lt_of_units_lt (Nat.lt_of_mul_lt_mul_right (Nat.lt_of_le_of_lt reached short))
    have two : rank - 1 < low + 1 := by
      have far : units (rank - 1) * denominator < numerator := by omega
      exact lt_of_units_lt (Nat.lt_of_mul_lt_mul_right (Nat.lt_trans far missed))
    obtain rfl : rank = low + 1 := by omega
    simp only [Nat.add_sub_cancel] at below odd
    split
    · omega
    · split
      · rfl
      · omega
  · -- The last magnitude reached is the one of the rank.
    have one : rank < low + 1 := lt_of_units_lt (Nat.lt_of_mul_lt_mul_right (Nat.lt_of_le_of_lt (by omega) missed))
    have two : low < rank + 1 := by
      have far : numerator < units (rank + 1) * denominator := by omega
      exact lt_of_units_lt (Nat.lt_of_mul_lt_mul_right (Nat.lt_of_le_of_lt reached far))
    obtain rfl : low = rank := by omega
    split
    · rfl
    · split <;> omega

/-! ### Decimals that read back -/

theorem mul_two_pow {power next : Nat} (same : next = power + 1) (count : Nat) :
    count * 2 ^ next = 2 * (count * 2 ^ power) := by
  rw [same, Nat.pow_succ, ← Nat.mul_assoc, Nat.mul_comm]

theorem around_of_readsAs {rank : Nat} {decimal : Decimal} (reads : decimal.readsAs rank = true) :
    Around rank (decimal.coefficient * 10 ^ decimal.exponent.toNat * 2 ^ 1074) (10 ^ (-decimal.exponent).toNat) := by
  have twice : decimal.coefficient * 10 ^ decimal.exponent.toNat * 2 ^ 1075 =
      2 * (decimal.coefficient * 10 ^ decimal.exponent.toNat * 2 ^ 1074) := by
    rw [mul_two_pow (show 1075 = 1074 + 1 from rfl)]
  unfold Decimal.readsAs at reads
  rw [twice] at reads
  dsimp only at reads
  unfold Around
  split at reads
  · next even =>
    simp only [Bool.and_eq_true, decide_eq_true_eq] at reads
    exact ⟨reads.1, reads.2, fun odd => by omega⟩
  · simp only [Bool.and_eq_true, decide_eq_true_eq] at reads
    exact ⟨Nat.le_of_lt reads.1, Nat.le_of_lt reads.2, fun _ => reads⟩

theorem readsAs_of_hit {rank coefficient : Nat} {exponent : Int}
    (hit : Decimal.hit? rank exponent = some coefficient) : Decimal.readsAs rank ⟨coefficient, exponent⟩ = true := by
  unfold Decimal.hit? at hit
  dsimp only at hit
  split at hit
  · next low high =>
    obtain rfl := Option.some.inj hit
    split
    · exact low
    · exact high
  · next low high =>
    obtain rfl := Option.some.inj hit
    exact low
  · next low high =>
    obtain rfl := Option.some.inj hit
    exact high
  · simp at hit

theorem mul_five_pow_mul_two_pow {power next : Nat} (same : next = power + 1) (count : Nat) :
    count * 5 ^ power * 2 ^ next = 2 * count * 10 ^ power := by
  rw [mul_two_pow same, Nat.mul_assoc count, ← Nat.mul_pow, ← Nat.mul_assoc]

theorem readsAs_exact {rank : Nat} (some : 0 < rank) : Decimal.readsAs rank (.exact rank) = true := by
  have before := units_lt_succ (rank - 1)
  rw [Nat.sub_add_cancel some] at before
  have after := units_lt_succ rank
  have twice : units rank * 5 ^ 1074 * 10 ^ (-1074 : Int).toNat * 2 ^ 1075 =
      2 * units rank * 10 ^ (-(-1074) : Int).toNat := by
    rw [show (-1074 : Int).toNat = 0 from rfl, show (-(-1074) : Int).toNat = 1074 from rfl, Nat.pow_zero, Nat.mul_one,
      mul_five_pow_mul_two_pow (show 1075 = 1074 + 1 from rfl)]
  have positive : 0 < 10 ^ (-(-1074) : Int).toNat := Nat.pow_pos (by decide)
  have low := Nat.mul_lt_mul_of_pos_right (show units (rank - 1) + units rank < 2 * units rank by omega) positive
  have high := Nat.mul_lt_mul_of_pos_right (show 2 * units rank < units rank + units (rank + 1) by omega) positive
  unfold Decimal.readsAs Decimal.exact
  dsimp only
  rw [twice]
  split
  · simp only [Bool.and_eq_true, decide_eq_true_eq]
    exact ⟨Nat.le_of_lt low, Nat.le_of_lt high⟩
  · simp only [Bool.and_eq_true, decide_eq_true_eq]
    exact ⟨low, high⟩

theorem readsAs_search {rank : Nat} (some : 0 < rank) (count : Nat) (exponent : Int) :
    Decimal.readsAs rank (.search rank count exponent) = true := by
  induction count generalizing exponent with
  | zero => exact readsAs_exact some
  | succ count ih =>
    unfold Decimal.search
    split
    · next coefficient hit => exact readsAs_of_hit hit
    · exact ih (exponent - 1)

theorem readsAs_shortest {rank : Nat} (some : 0 < rank) : Decimal.readsAs rank (.shortest rank) = true := by
  unfold Decimal.shortest
  rw [if_neg (by omega)]
  exact readsAs_search some 20 _

/-! ### Reading a decimal -/

/-- Far below the first magnitude the quotient is not looked at; nothing around a rank lies there. -/
theorem two_pow_le_ten_pow {places : Nat} (far : 402 ≤ places) : 2 ^ (places + 674) ≤ 10 ^ places := by
  have four : 2 ^ 674 ≤ 5 ^ places := by
    calc
      2 ^ 674 ≤ 2 ^ (2 * places) := Nat.pow_le_pow_right (by decide) (by omega)
      _ = 4 ^ places := Nat.pow_mul 2 2 places
      _ ≤ 5 ^ places := Nat.pow_le_pow_left (by decide) places
  calc
    2 ^ (places + 674) = 2 ^ places * 2 ^ 674 := Nat.pow_add ..
    _ ≤ 2 ^ places * 5 ^ places := Nat.mul_le_mul_left _ four
    _ = 10 ^ places := (Nat.mul_pow 2 5 places).symm

/-- No rank above zero has a quotient of zero around it. -/
theorem le_of_around {rank numerator denominator : Nat} (some : 0 < rank)
    (around : Around rank numerator denominator) : denominator ≤ 2 * numerator := by
  have less := units_lt_succ (rank - 1)
  rw [Nat.sub_add_cancel some] at less
  calc
    denominator ≤ (units (rank - 1) + units rank) * denominator := Nat.le_mul_of_pos_left _ (by omega)
    _ ≤ 2 * numerator := around.1

theorem not_far_of_around {rank coefficient places : Nat} (some : 0 < rank)
    (around : Around rank (coefficient * 2 ^ 1074) (10 ^ places)) : places ≤ coefficient.log2 + 401 := by
  by_cases far : places ≤ coefficient.log2 + 401
  · exact far
  · have below := le_of_around some around
    have high : 2 * (coefficient * 2 ^ 1074) < 2 ^ (places + 674) := by
      calc
        2 * (coefficient * 2 ^ 1074) < 2 * (2 ^ (coefficient.log2 + 1) * 2 ^ 1074) :=
          Nat.mul_lt_mul_of_pos_left (Nat.mul_lt_mul_of_pos_right Nat.lt_log2_self (Nat.two_pow_pos _)) (by decide)
        _ = 2 ^ (coefficient.log2 + 1 + 1074 + 1) := by
          rw [← Nat.pow_add 2 (coefficient.log2 + 1) 1074, ← Nat.pow_succ']
        _ ≤ 2 ^ (places + 674) := Nat.pow_le_pow_right (by decide) (by omega)
    have reached := two_pow_le_ten_pow (show 402 ≤ places by omega)
    omega

theorem ofDecimal_of_around {rank coefficient places : Nat} (some : 0 < rank) (bound : rank < ranks)
    (around : Around rank (coefficient * 2 ^ 1074) (10 ^ places)) (negative : Bool) :
    ofDecimal negative coefficient (-(places : Int)) = finite negative ⟨rank, bound⟩ := by
  have near := not_far_of_around some around
  have positive : 0 < 10 ^ places := Nat.pow_pos (by decide)
  have nonzero : coefficient ≠ 0 := by
    intro zero
    have below := le_of_around some around
    simp only [zero, Nat.zero_mul] at below
    omega
  have whole : (-(places : Int)).toNat = 0 := by omega
  have places' : (- -(places : Int)).toNat = places := by omega
  have nearest := nearestRank_of_around some positive around
  unfold ofDecimal
  rw [if_neg nonzero, if_neg (by omega), if_neg (by omega), whole, places', Nat.pow_zero, Nat.mul_one]
  unfold ofRatio
  simp only [nearest, bound, dif_pos]

end Caret.Double
