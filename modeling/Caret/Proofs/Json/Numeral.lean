import Caret.Number.Literal
import Caret.Proofs.Combinators
import Caret.Proofs.Json.Syntax

/-!
Numerals and literals. A literal is proper if its parts are those of a numeral, and the numerals are just the spellings
of proper literals. A spelling reads, as a text of its own, to the value of the literal.
-/

namespace Caret

open Json.Syntax

structure Power.Proper (power : Power) : Prop where
  sign : power.sign = none ∨ power.sign = some '+' ∨ power.sign = some '-'
  some : power.digits ≠ []
  digits : Digits power.digits

namespace Literal

structure Proper (literal : Literal) : Prop where
  whole : Whole literal.whole
  fraction : Digits literal.fraction
  power : ∀ power ∈ literal.power, power.Proper

def minus (negative : Bool) : List Char :=
  if negative then ['-'] else []

def pointed (digits : List Char) : List Char :=
  if digits = [] then [] else '.' :: digits

def raised (marker : Char) : Option Power → List Char
  | none => []
  | some power => marker :: (power.sign.toList ++ power.digits)

def spelled (marker : Char) (literal : Literal) : List Char :=
  minus literal.negative ++ (literal.whole ++ (pointed literal.fraction ++ raised marker literal.power))

def Marks (marker : Char) : Prop :=
  marker = 'e' ∨ marker = 'E'

/-- What may stand after a literal, so that nothing more is taken for part of it. -/
def Edge (ahead : List Char) : Prop :=
  ∀ char ∈ ahead.head?, char.isDigit = false ∧ char ≠ '.' ∧ ¬Marks char

end Literal

/-! ### Numerals are spellings -/

section Spelling

open Literal

theorem sign_minus (negative : Bool) : Sign (minus negative) := by
  cases negative with
  | false => exact .none
  | true => exact .minus

theorem fraction_pointed {digits : List Char} (decimal : Digits digits) : Fraction (pointed digits) := by
  unfold pointed
  split
  · exact .none
  · next some => exact .digits some decimal

theorem exponent_raised {marker : Char} {power : Option Power} (marked : Marks marker)
    (proper : ∀ found ∈ power, found.Proper) : Exponent (raised marker power) := by
  cases power with
  | none => exact .none
  | some power =>
    have sound := proper power rfl
    have sign : power.sign.toList = [] ∨ power.sign.toList = ['+'] ∨ power.sign.toList = ['-'] := by
      rcases sound.sign with same | same | same <;> simp [same]
    exact .digits marked sign sound.some sound.digits

theorem numeral_spelled {literal : Literal} {marker : Char} (proper : literal.Proper) (marked : Marks marker) :
    Numeral (literal.spelled marker) := by
  have parts := Numeral.parts (sign_minus literal.negative) proper.whole (fraction_pointed proper.fraction)
    (exponent_raised marked proper.power)
  simpa only [spelled, List.append_assoc] using parts

theorem spelled_of_numeral {word : List Char} (numeral : Numeral word) :
    ∃ (literal : Literal) (marker : Char), literal.Proper ∧ Marks marker ∧ word = literal.spelled marker := by
  obtain @⟨sign, whole, fraction, exponent, signed, counted, divided, scaled⟩ := numeral
  have front : ∃ negative, sign = minus negative := by
    cases signed with
    | none => exact ⟨false, rfl⟩
    | minus => exact ⟨true, rfl⟩
  have middle : ∃ digits, Digits digits ∧ fraction = pointed digits := by
    cases divided with
    | none => exact ⟨[], by simp [Digits], rfl⟩
    | @digits word some digits => exact ⟨word, digits, by simp [pointed, some]⟩
  have back : ∃ power marker, (∀ raise ∈ power, raise.Proper) ∧ Marks marker ∧ exponent = raised marker power := by
    cases scaled with
    | none => exact ⟨none, 'e', by simp, .inl rfl, rfl⟩
    | @digits marker sign word marked signed nonempty digits =>
      have proper : ∀ mark, mark = none ∨ mark = some '+' ∨ mark = some '-' →
          ∀ power ∈ some (Power.mk mark word), power.Proper := by
        intro mark allowed power same
        cases same
        exact ⟨allowed, nonempty, digits⟩
      rcases signed with rfl | rfl | rfl
      · exact ⟨some ⟨none, word⟩, marker, proper _ (by simp), marked, rfl⟩
      · exact ⟨some ⟨some '+', word⟩, marker, proper _ (by simp), marked, rfl⟩
      · exact ⟨some ⟨some '-', word⟩, marker, proper _ (by simp), marked, rfl⟩
  obtain ⟨negative, rfl⟩ := front
  obtain ⟨digits, decimal, rfl⟩ := middle
  obtain ⟨power, marker, proper, marked, rfl⟩ := back
  exact ⟨⟨negative, whole, digits, power⟩, marker, ⟨counted, decimal, proper⟩, marked,
    by simp only [spelled, List.append_assoc]⟩

end Spelling

/-! ### Reading a spelling as a text -/

theorem Json.Syntax.Whole.all_digits {word : List Char} (whole : Whole word) : Digits word := by
  cases whole with
  | zero => simp [Digits]
  | digits digit nonzero more => simpa [Digits, digit] using more

theorem Json.Syntax.Whole.head_digit {word : List Char} (whole : Whole word) :
    ∃ first rest, word = first :: rest ∧ first.isDigit = true := by
  cases whole with
  | zero => exact ⟨_, _, rfl, rfl⟩
  | digits digit _ _ => exact ⟨_, _, rfl, digit⟩

/-- What a numeral may contain. -/
theorem Json.Syntax.Numeral.mem {word : List Char} (numeral : Numeral word) {char : Char} (inside : char ∈ word) :
    char.isDigit = true ∨ char ∈ ['-', '+', '.', 'e', 'E'] := by
  obtain @⟨sign, whole, fraction, exponent, signed, counted, divided, scaled⟩ := numeral
  simp only [List.mem_append] at inside
  rcases inside with ((inside | inside) | inside) | inside
  · cases signed with
    | none => simp at inside
    | minus => simp [List.mem_singleton.mp inside]
  · exact .inl (counted.all_digits char inside)
  · cases divided with
    | none => simp at inside
    | digits some digits =>
      rcases List.mem_cons.mp inside with rfl | inside
      · simp
      · exact .inl (digits char inside)
  · cases scaled with
    | none => simp at inside
    | digits marked signed some digits =>
      rcases List.mem_cons.mp inside with rfl | inside
      · rcases marked with rfl | rfl <;> simp
      · rcases List.mem_append.mp inside with inside | inside
        · rcases signed with rfl | rfl | rfl <;> simp_all
        · exact .inl (digits char inside)

namespace Literal

variable {literal : Literal} {marker : Char}

theorem head_raised (marked : Marks marker) (power : Option Power) :
    ∀ char ∈ (raised marker power).head?, char.isDigit = false ∧ char ≠ '.' := by
  cases power with
  | none => simp [raised]
  | some power => rcases marked with rfl | rfl <;> simp [raised]

theorem power?_spelled {power : Power} (proper : power.Proper) :
    power? (power.sign.toList ++ power.digits) = some power := by
  obtain ⟨sign, digits⟩ := power
  obtain ⟨signed, some, all⟩ := proper
  cases digits with
  | nil => exact absurd rfl some
  | cons first digits =>
    have every : (first :: digits).all Char.isDigit = true := List.all_eq_true.mpr all
    have plus : first ≠ '+' := ne_of_accepts (all first List.mem_cons_self) (by decide)
    have minus : first ≠ '-' := ne_of_accepts (all first List.mem_cons_self) (by decide)
    rcases signed with same | same | same <;> simp only at same <;> subst same <;> simp_all [power?]

theorem ofUnsigned?_spelled (proper : literal.Proper) (marked : Marks marker) :
    ofUnsigned? literal.negative
      (literal.whole ++ (pointed literal.fraction ++ raised marker literal.power)) = some literal := by
  obtain ⟨negative, whole, fraction, power⟩ := literal
  have digits := proper.whole.all_digits
  have nonempty : whole ≠ [] := by
    obtain ⟨first, rest, same, -⟩ := proper.whole.head_digit
    exact fun none => by simp [none] at same
  have edge := head_raised marked power
  have lower : (marker.toLower == 'e') = true := by rcases marked with rfl | rfl <;> rfl
  have front : ∀ char ∈ (pointed fraction ++ raised marker power).head?, char.isDigit = false := by
    unfold pointed
    split
    · exact fun char first => (edge char first).1
    · simp
  obtain ⟨taken, dropped⟩ := cut_of_all digits front
  unfold ofUnsigned?
  rw [taken, dropped]
  by_cases absent : fraction = []
  · subst absent
    cases power with
    | none => simp [pointed, raised, nonempty]
    | some power =>
      have read := power?_spelled (proper.power power rfl)
      rcases marked with rfl | rfl <;> simp [pointed, raised, nonempty, read]
  · have decimal : Digits fraction := proper.fraction
    obtain ⟨cut, rest⟩ := cut_of_all decimal fun char first => (edge char first).1
    have begins : pointed fraction ++ raised marker power = '.' :: (fraction ++ raised marker power) := by
      simp [pointed, absent]
    simp only [begins, cut, rest]
    cases power with
    | none => simp [raised, nonempty]
    | some power =>
      have read := power?_spelled (proper.power power rfl)
      simp only [raised, lower, read]
      simp [nonempty]

/-- What begins with a digit is none of the words for numbers that have no literal. -/
theorem ofUnsigned?_of_digit {first : Char} {chars : List Char} (digit : first.isDigit = true) (negative : Bool) :
    Double.ofUnsigned? negative (first :: chars) =
      (Literal.ofUnsigned? negative (first :: chars)).map Literal.value := by
  have different : ∀ word : String, ∀ char ∈ word.toList.head?, char.isDigit = false →
      ¬String.ofList ((first :: chars).map Char.toLower) = word := by
    intro word char front other same
    have lower : first.toLower = first := by
      unfold Char.toLower
      rw [dif_neg]
      simp only [Char.isDigit, Bool.and_eq_true, decide_eq_true_eq] at digit
      exact fun upper => absurd (UInt32.le_trans upper.1 digit.2) (by decide)
    rw [← same, String.toList_ofList, List.map_cons, lower] at front
    cases front
    exact absurd digit (by simp [other])
  unfold Double.ofUnsigned?
  split
  · next same => exact absurd same (different _ 'n' rfl rfl)
  · next same => exact absurd same (different _ 'i' rfl rfl)
  · next same => exact absurd same (different _ 'i' rfl rfl)
  · rfl

theorem ofText?_spelled (proper : literal.Proper) (marked : Marks marker) :
    Double.ofText? (String.ofList (literal.spelled marker)) = some literal.value := by
  have read := ofUnsigned?_spelled proper marked
  obtain ⟨first, rest, same, digit⟩ := proper.whole.head_digit
  have minus : first ≠ '-' := ne_of_accepts digit (by decide)
  have plus : first ≠ '+' := ne_of_accepts digit (by decide)
  rw [same, List.cons_append] at read
  unfold Double.ofText? spelled
  rw [same, String.toList_ofList, List.cons_append]
  cases negative : literal.negative <;> rw [negative] at read <;>
    simp_all [Literal.minus, ofUnsigned?_of_digit]

end Literal

end Caret
