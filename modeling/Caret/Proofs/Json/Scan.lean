import Caret.Json.Grammar
import Caret.Proofs.Json.Numeral

/-!
Number literals at the front of what is ahead. What the parser of literals takes is worked out part by part: as much of
each part as there is, and no fraction or power that is not complete. So it takes the spelling of a proper literal, and
takes all of it unless more of a literal may follow.
-/

namespace Caret.Json

open Caret.Parser

namespace Scan

def minus : List Char → Bool × List Char
  | [] => (false, [])
  | token :: ahead => if token = '-' then (true, ahead) else (false, token :: ahead)

def whole : List Char → Option (List Char × List Char)
  | [] => none
  | token :: ahead =>
    if token = '0' then some (['0'], ahead)
    else if token.isDigit then some (token :: ahead.takeWhile Char.isDigit, ahead.dropWhile Char.isDigit)
    else none

def fraction : List Char → List Char × List Char
  | [] => ([], [])
  | token :: ahead =>
    if token = '.' ∧ ahead.takeWhile Char.isDigit ≠ [] then
      (ahead.takeWhile Char.isDigit, ahead.dropWhile Char.isDigit)
    else ([], token :: ahead)

def sign : List Char → Option Char × List Char
  | [] => (none, [])
  | token :: ahead => if token = '-' ∨ token = '+' then (some token, ahead) else (none, token :: ahead)

def power : List Char → Option Power × List Char
  | [] => (none, [])
  | token :: ahead =>
    if (token = 'e' ∨ token = 'E') ∧ (sign ahead).2.takeWhile Char.isDigit ≠ [] then
      (some ⟨(sign ahead).1, (sign ahead).2.takeWhile Char.isDigit⟩, (sign ahead).2.dropWhile Char.isDigit)
    else (none, token :: ahead)

def parts (negative : Bool) (whole ahead : List Char) : Literal × List Char :=
  ({ negative, whole, fraction := (fraction ahead).1, power := (power (fraction ahead).2).1 },
    (power (fraction ahead).2).2)

def literal (ahead : List Char) : Option (Literal × List Char) :=
  (whole (minus ahead).2).map fun (digits, rest) => parts (minus ahead).1 digits rest

end Scan

/-! ### Taking a literal -/

section Taking

variable {Ref : Type → Type} (ask : Ask Ref) (depths : Depths) (ahead : List Char)

theorem trace_digits :
    digits.trace ask depths ahead =
      if ahead.takeWhile Char.isDigit = [] then .stopped (.here "digit" ahead)
      else .took (ahead.takeWhile Char.isDigit) (ahead.dropWhile Char.isDigit) :=
  Trace.many1_satisfy _ _ _ _

theorem trace_minus :
    (char '-').opt.trace ask depths ahead =
      .took (if (Scan.minus ahead).1 then some '-' else none) (Scan.minus ahead).2 := by
  cases ahead with
  | nil => rfl
  | cons token ahead =>
    by_cases same : token = '-' <;> simp [Scan.minus, Rule.traceSatisfy, same]

theorem trace_wholeDigits :
    wholeDigits.trace ask depths ahead =
      match Scan.whole ahead with
      | some (digits, rest) => .took digits rest
      | none => .stopped (.here "1-9" ahead) := by
  cases ahead with
  | nil => rfl
  | cons token ahead =>
    have zero : "0".toList = ['0'] := rfl
    by_cases same : token = '0'
    · simp [wholeDigits, Scan.whole, trace_text, zero, same]
    · have absent : ¬['0'] <+: token :: ahead := by simp [List.cons_prefix_cons, Ne.symm same]
      cases digit : token.isDigit with
      | false => simp [wholeDigits, Scan.whole, trace_text, zero, same, absent, Rule.traceSatisfy, digit]
      | true =>
        have many : ∀ rest, Parser.digit.many.trace ask depths rest =
            .took (rest.takeWhile Char.isDigit) (rest.dropWhile Char.isDigit) := fun _ => Trace.many_satisfy _ _ _ _
        simp [wholeDigits, Scan.whole, trace_text, zero, same, absent, Rule.traceSatisfy, digit, many, -trace_many]

theorem trace_fractionDigits :
    fractionDigits.opt.trace ask depths ahead =
      .took (if (Scan.fraction ahead).1 = [] then none else some (Scan.fraction ahead).1) (Scan.fraction ahead).2 := by
  cases ahead with
  | nil => rfl
  | cons token ahead =>
    by_cases point : token = '.'
    · subst point
      simp only [fractionDigits, trace_opt, trace_keepRight, trace_char, Rule.traceSatisfy_cons, beq_self_eq_true,
        if_true, Trace.bind_took, trace_digits, Scan.fraction, true_and]
      generalize ahead.takeWhile Char.isDigit = front
      by_cases none : front = []
      · simp [none]
      · simp [none]
    · simp [fractionDigits, Scan.fraction, Rule.traceSatisfy, point]

theorem trace_plusMinus :
    ((char '-').orElse (char '+')).opt.trace ask depths ahead = .took (Scan.sign ahead).1 (Scan.sign ahead).2 := by
  cases ahead with
  | nil => rfl
  | cons token ahead =>
    by_cases minus : token = '-'
    · simp [Scan.sign, Rule.traceSatisfy, minus]
    · by_cases plus : token = '+' <;> simp [Scan.sign, Rule.traceSatisfy, minus, plus]

theorem trace_marker (token : Char) :
    ((char 'e').orElse (char 'E')).trace ask depths (token :: ahead) =
      if token = 'e' ∨ token = 'E' then .took token ahead else .stopped (.here "E" (token :: ahead)) := by
  by_cases lower : token = 'e'
  · simp [Rule.traceSatisfy, lower]
  · by_cases upper : token = 'E' <;> simp [Rule.traceSatisfy, lower, upper]

theorem trace_power :
    Json.power.opt.trace ask depths ahead = .took (Scan.power ahead).1 (Scan.power ahead).2 := by
  cases ahead with
  | nil => rfl
  | cons token ahead =>
    unfold Json.power Scan.power
    rw [trace_opt, trace_keepRight, trace_marker]
    by_cases marked : token = 'e' ∨ token = 'E'
    · rw [if_pos marked, Trace.bind_took, trace_map, trace_andThen, trace_plusMinus, Trace.bind_took, trace_digits]
      by_cases none : (Scan.sign ahead).2.takeWhile Char.isDigit = [] <;> simp [marked, none]
    · simp [marked]

theorem trace_literal :
    Json.literal.trace ask depths ahead =
      match Scan.literal ahead with
      | some (literal, rest) => .took literal rest
      | none => .stopped (.here "1-9" (Scan.minus ahead).2) := by
  simp only [Json.literal, trace_map, trace_andThen, trace_minus, Trace.bind_took, trace_wholeDigits, Scan.literal]
  cases Scan.whole (Scan.minus ahead).2 with
  | none => simp
  | some found =>
    obtain ⟨digits, rest⟩ := found
    simp only [Trace.map_took, Trace.bind_took, trace_fractionDigits, trace_power, Option.map_some, Scan.parts]
    by_cases none : (Scan.fraction rest).1 = [] <;> cases (Scan.minus ahead).1 <;> simp [none]

end Taking

/-! ### What is taken is spelled -/

namespace Scan

open Literal Syntax

theorem minus_append (ahead : List Char) : Literal.minus (minus ahead).1 ++ (minus ahead).2 = ahead := by
  unfold minus
  split
  · rfl
  · split <;> simp_all [Literal.minus]

theorem whole_append {ahead digits rest : List Char} (found : whole ahead = some (digits, rest)) :
    Whole digits ∧ digits ++ rest = ahead := by
  unfold whole at found
  split at found
  · simp at found
  · next token ahead =>
    split at found
    · next zero =>
      simp only [Option.some.injEq, Prod.mk.injEq] at found
      obtain ⟨rfl, rfl⟩ := found
      exact ⟨.zero, by simp [zero]⟩
    · next nonzero =>
      split at found
      · next digit =>
        simp only [Option.some.injEq, Prod.mk.injEq] at found
        obtain ⟨rfl, rfl⟩ := found
        exact ⟨.digits digit nonzero (List.all_eq_true.mp List.all_takeWhile), by simp [List.takeWhile_append_dropWhile]⟩
      · simp at found

theorem fraction_append (ahead : List Char) :
    Digits (fraction ahead).1 ∧ pointed (fraction ahead).1 ++ (fraction ahead).2 = ahead := by
  unfold fraction
  split
  · exact ⟨by simp [Digits], rfl⟩
  · split
    · next both => exact ⟨List.all_eq_true.mp List.all_takeWhile, by simp [pointed, both]⟩
    · exact ⟨by simp [Digits], rfl⟩

theorem sign_append (ahead : List Char) :
    ((sign ahead).1 = none ∨ (sign ahead).1 = some '+' ∨ (sign ahead).1 = some '-') ∧
      (sign ahead).1.toList ++ (sign ahead).2 = ahead := by
  unfold sign
  split
  · simp
  · split
    · next mark => rcases mark with rfl | rfl <;> simp
    · simp

theorem power_append (ahead : List Char) :
    ∃ marker, Marks marker ∧ (∀ found ∈ (power ahead).1, found.Proper) ∧
      raised marker (power ahead).1 ++ (power ahead).2 = ahead := by
  unfold power
  split
  · exact ⟨'e', .inl rfl, by simp, rfl⟩
  · next token ahead =>
    split
    · next both =>
      obtain ⟨signed, cut⟩ := sign_append ahead
      refine ⟨token, both.1, ?_, ?_⟩
      · intro found same
        cases same
        exact ⟨signed, both.2, List.all_eq_true.mp List.all_takeWhile⟩
      · simp [raised, cut]
    · exact ⟨'e', .inl rfl, by simp, rfl⟩

/-- What is taken for a literal is spelled in front of what is left. -/
theorem spelled_of_literal {ahead rest : List Char} {found : Literal} (taken : literal ahead = some (found, rest)) :
    ∃ marker, found.Proper ∧ Marks marker ∧ found.spelled marker ++ rest = ahead := by
  unfold literal at taken
  obtain ⟨⟨digits, middle⟩, counted, same⟩ := Option.map_eq_some_iff.mp taken
  obtain ⟨whole, front⟩ := whole_append counted
  obtain ⟨decimal, point⟩ := fraction_append middle
  obtain ⟨marker, marked, proper, back⟩ := power_append (fraction middle).2
  simp only [parts, Prod.mk.injEq] at same
  obtain ⟨rfl, rfl⟩ := same
  refine ⟨marker, ⟨whole, decimal, proper⟩, marked, ?_⟩
  simp only [spelled, List.append_assoc, back, point, front, minus_append]

/-! ### What is spelled is taken -/

theorem minus_spelled {rest : List Char} (negative : Bool) (edge : ∀ char ∈ rest.head?, char ≠ '-') :
    minus (Literal.minus negative ++ rest) = (negative, rest) := by
  cases negative with
  | true => rfl
  | false =>
    cases rest with
    | nil => rfl
    | cons token rest => simp [Literal.minus, minus, edge token rfl]

theorem whole_spelled {digits rest : List Char} (counted : Whole digits)
    (edge : ∀ char ∈ rest.head?, char.isDigit = false) : whole (digits ++ rest) = some (digits, rest) := by
  cases counted with
  | zero => rfl
  | digits digit nonzero more =>
    obtain ⟨taken, dropped⟩ := cut_of_all more edge
    simp [whole, digit, nonzero, taken, dropped]

theorem fraction_spelled {digits rest : List Char} (decimal : Digits digits)
    (edge : ∀ char ∈ rest.head?, char.isDigit = false ∧ char ≠ '.') :
    fraction (pointed digits ++ rest) = (digits, rest) := by
  by_cases none : digits = []
  · subst none
    cases rest with
    | nil => rfl
    | cons token rest => simp [pointed, fraction, edge token rfl]
  · obtain ⟨taken, dropped⟩ := cut_of_all decimal fun char first => (edge char first).1
    simp [pointed, fraction, none, taken, dropped]

theorem sign_spelled {mark : Option Char} {rest : List Char}
    (signed : mark = none ∨ mark = some '+' ∨ mark = some '-') (edge : ∀ char ∈ rest.head?, char ≠ '-' ∧ char ≠ '+') :
    sign (mark.toList ++ rest) = (mark, rest) := by
  rcases signed with rfl | rfl | rfl
  · cases rest with
    | nil => rfl
    | cons token rest => simp [sign, edge token rfl]
  · rfl
  · rfl

theorem power_spelled {found : Option Power} {marker : Char} {rest : List Char} (proper : ∀ power ∈ found, power.Proper)
    (marked : Marks marker) (edge : ∀ char ∈ rest.head?, char.isDigit = false ∧ ¬Marks char) :
    power (raised marker found ++ rest) = (found, rest) := by
  cases found with
  | none =>
    cases rest with
    | nil => rfl
    | cons token rest =>
      have unmarked : ¬(token = 'e' ∨ token = 'E') := (edge token rfl).2
      simp [raised, power, unmarked]
  | some found =>
    obtain ⟨signed, nonempty, digits⟩ := proper found rfl
    obtain ⟨taken, dropped⟩ := cut_of_all digits fun char first => (edge char first).1
    have solid : ∀ char ∈ (found.digits ++ rest).head?, char ≠ '-' ∧ char ≠ '+' := by
      cases list : found.digits with
      | nil => exact absurd list nonempty
      | cons first others =>
        intro char same
        cases same
        have digit := digits first (by simp [list])
        exact ⟨ne_of_accepts digit (by decide), ne_of_accepts digit (by decide)⟩
    have marked : marker = 'e' ∨ marker = 'E' := marked
    simp [raised, power, marked, sign_spelled signed solid, taken, dropped, nonempty]

theorem literal_spelled {found : Literal} {marker : Char} {rest : List Char} (proper : found.Proper)
    (marked : Marks marker) (edge : Edge rest) : literal (found.spelled marker ++ rest) = some (found, rest) := by
  obtain ⟨negative, digits, decimals, raise⟩ := found
  have back : ∀ char ∈ (raised marker raise ++ rest).head?, char.isDigit = false ∧ char ≠ '.' := by
    cases raise with
    | none => exact fun char first => ⟨(edge char first).1, (edge char first).2.1⟩
    | some power => exact head_raised marked (some power)
  have middle : ∀ char ∈ (pointed decimals ++ (raised marker raise ++ rest)).head?, char.isDigit = false := by
    unfold pointed
    split
    · exact fun char first => (back char first).1
    · simp
  have front : ∀ char ∈ (digits ++ (pointed decimals ++ (raised marker raise ++ rest))).head?, char ≠ '-' := by
    obtain ⟨first, others, same, digit⟩ := proper.whole.head_digit
    simp only at same
    subst same
    intro char same
    cases same
    exact ne_of_accepts digit (by decide)
  have power := power_spelled proper.power marked fun char first => ⟨(edge char first).1, (edge char first).2.2⟩
  have fraction := fraction_spelled proper.fraction back
  have whole := whole_spelled proper.whole middle
  have minus := minus_spelled negative front
  simp only at power fraction whole
  simp only [spelled, List.append_assoc, literal, minus, whole, Option.map_some, parts, fraction, power]

end Scan

end Caret.Json
