import Caret.Proofs.Diagnostics
import Caret.Proofs.Json.Scan

/-!
Numbers as far as they go. Each part of a number is the longest word of its kind that is a front of what is then ahead:
a sign or none, the digits before the point, a fraction or none, an exponent or none. So the whole number is the longest
numeral, a fraction or an exponent that is not complete stays ahead, and a number is missing just where its first digits
are.
-/

namespace Caret

theorem Outcome.bind_congr {α β : Type} {outcome : Outcome α} {next other : α → Input → Gauges → Outcome β}
    (same : ∀ value rest, outcome.reply = .accept value rest →
      next value rest outcome.gauges = other value rest outcome.gauges) : outcome.bind next = outcome.bind other := by
  unfold bind
  split
  · next accepted => rw [same _ _ accepted]
  · rfl
  · rfl

/-! ### Texts and values of literals -/

theorem Double.ofDecimal_eq_infinite {negative : Bool} {coefficient : Nat} {exponent : Int}
    (large : (ofDecimal negative coefficient exponent).isFinite = false) :
    ofDecimal negative coefficient exponent = .infinite negative := by
  revert large
  unfold ofDecimal ofRatio
  dsimp only
  split
  · exact nofun
  · split
    · exact fun _ => rfl
    · split
      · exact nofun
      · split
        · exact nofun
        · exact fun _ => rfl

namespace Literal

open Json.Syntax

def lowerMarker (char : Char) : Char :=
  if char = 'E' then 'e' else char

theorem map_lowerMarker {word : List Char} (digits : Digits word) : word.map lowerMarker = word := by
  calc
    word.map lowerMarker
    _ = word.map id := List.map_congr_left fun char among => if_neg (ne_of_accepts (digits char among) (by decide))
    _ = word := List.map_id word

theorem chars_eq_spelled (literal : Literal) : literal.chars = literal.spelled 'e' := by
  obtain ⟨negative, whole, fraction, power⟩ := literal
  cases fraction <;> cases power <;> simp [chars, spelled, minus, pointed, raised]

theorem text_eq {literal : Literal} {marker : Char} (proper : literal.Proper) (marked : Marks marker) :
    literal.text = String.ofList ((literal.spelled marker).map lowerMarker) := by
  have sign : (minus literal.negative).map lowerMarker = minus literal.negative := by cases literal.negative <;> rfl
  have point : (pointed literal.fraction).map lowerMarker = pointed literal.fraction := by
    unfold pointed
    split
    · rfl
    · rw [List.map_cons, map_lowerMarker proper.fraction]
      rfl
  have raise : (raised marker literal.power).map lowerMarker = raised 'e' literal.power := by
    cases raised' : literal.power with
    | none => rfl
    | some power =>
      have sound := proper.power power raised'
      have sign : power.sign.toList.map lowerMarker = power.sign.toList := by
        rcases sound.sign with same | same | same <;> rw [same] <;> rfl
      have mark : lowerMarker marker = 'e' := by rcases marked with rfl | rfl <;> rfl
      simp only [raised, List.map_cons, List.map_append, mark, sign, map_lowerMarker sound.digits]
  rw [text, chars_eq_spelled]
  simp only [spelled, List.map_append, sign, point, raise, map_lowerMarker proper.whole.all_digits]

end Literal

namespace Json

open Caret.Parser Syntax Literal

/-! ### Longest words -/

/-- A word of a kind before what is left, such that no longer word of that kind is a front of the two together. -/
structure Longest (Word : List Char → Prop) (word rest : List Char) : Prop where
  spelled : Word word
  most : ∀ other, Word other → other <+: word ++ rest → other.length ≤ word.length

def Chained (First Second : List Char → Prop) (word : List Char) : Prop :=
  ∃ left right, First left ∧ Second right ∧ word = left ++ right

namespace Longest

variable {Word First Second : List Char → Prop} {word rest other last front back : List Char}

theorem unique (longest : Longest Word word rest) (too : Longest Word other last)
    (same : word ++ rest = other ++ last) : word = other ∧ rest = last := by
  have within : word <+: other ++ last := same ▸ List.prefix_append word rest
  have within' : other <+: word ++ rest := same ▸ List.prefix_append other last
  have size : word.length = other.length :=
    Nat.le_antisymm (too.most word longest.spelled within) (longest.most other too.spelled within')
  exact List.append_inj same size

/-- The longest words of two kinds make a longest one together, if nothing in the first one begins a word of the second
kind. -/
theorem append (first : Longest First front (back ++ rest)) (second : Longest Second back rest)
    (apart : ∀ token ∈ front, ∀ more, ¬Second (token :: more)) :
    Longest (Chained First Second) (front ++ back) rest where
  spelled := ⟨front, back, first.spelled, second.spelled, rfl⟩
  most := by
    rintro - ⟨left, right, one, two, rfl⟩ within
    rw [List.append_assoc] at within
    have short := first.most left one ((List.prefix_append left right).trans within)
    obtain ⟨tail, rfl⟩ := List.prefix_of_prefix_length_le
      ((List.prefix_append left right).trans within) (List.prefix_append front (back ++ rest)) short
    rw [List.append_assoc, List.prefix_append_right_inj] at within
    -- Either the first words are the same, or the second one would begin inside the longer of them.
    cases tail with
    | nil =>
      have fits := second.most right two within
      simp only [List.append_nil, List.length_append]
      omega
    | cons token more =>
      cases right with
      | nil =>
        simp only [List.append_nil, List.length_append]
        omega
      | cons token' others =>
        obtain ⟨rfl, -⟩ := List.cons_prefix_cons.mp within
        exact absurd two (apart _ (by simp) others)

end Longest

/-! ### The parts of a number -/

namespace Scan

variable {ahead digits rest : List Char}

theorem length_le_takeWhile {word : List Char} (digits : Digits word) (more : List Char) :
    word.length ≤ ((word ++ more).takeWhile Char.isDigit).length := by
  rw [List.takeWhile_append_of_pos digits, List.length_append]
  exact Nat.le_add_right _ _

theorem takeWhile_ne_nil {word : List Char} (some : word ≠ []) (digits : Digits word) (more : List Char) :
    (word ++ more).takeWhile Char.isDigit ≠ [] := by
  rw [List.takeWhile_append_of_pos digits]
  exact List.append_ne_nil_of_left_ne_nil some _

theorem longest_minus (ahead : List Char) : Longest Sign (Literal.minus (minus ahead).1) (minus ahead).2 where
  spelled := sign_minus (minus ahead).1
  most := by
    intro other signed within
    rw [minus_append] at within
    cases signed with
    | none => exact Nat.zero_le _
    | minus =>
      obtain ⟨more, rfl⟩ := within
      exact Nat.le_refl 1

theorem longest_whole (found : whole ahead = some (digits, rest)) : Longest Whole digits rest where
  spelled := (whole_append found).1
  most := by
    intro other counted within
    rw [(whole_append found).2] at within
    obtain ⟨more, rfl⟩ := within
    cases counted with
    | zero =>
      cases found
      exact Nat.le_refl 1
    | @digits first others digit nonzero all =>
      simp only [whole, List.cons_append, if_neg nonzero, if_pos digit] at found
      cases found
      exact Nat.succ_le_succ (length_le_takeWhile all more)

theorem not_whole (missing : whole ahead = none) (word : List Char) (counted : Whole word) : ¬word <+: ahead := by
  rintro ⟨more, rfl⟩
  cases counted with
  | zero => cases missing
  | digits digit nonzero all => simp [whole, nonzero, digit] at missing

theorem longest_fraction (ahead : List Char) :
    Longest Fraction (pointed (fraction ahead).1) (fraction ahead).2 where
  spelled := fraction_pointed (fraction_append ahead).1
  most := by
    intro other divided within
    rw [(fraction_append ahead).2] at within
    obtain ⟨more, rfl⟩ := within
    cases divided with
    | none => exact Nat.zero_le _
    | @digits word some all =>
      have taken := takeWhile_ne_nil some all more
      simp only [List.cons_append, fraction, taken, ne_eq, not_false_eq_true, and_self, if_true, pointed, if_false]
      exact Nat.succ_le_succ (length_le_takeWhile all more)

theorem longest_power (ahead : List Char) : ∃ marker, Marks marker ∧ (∀ found ∈ (power ahead).1, found.Proper) ∧
    raised marker (power ahead).1 ++ (power ahead).2 = ahead ∧
    Longest Exponent (raised marker (power ahead).1) (power ahead).2 := by
  obtain ⟨marker, marked, proper, cut⟩ := power_append ahead
  refine ⟨marker, marked, proper, cut, exponent_raised marked proper, ?_⟩
  intro other scaled within
  rw [cut] at within
  obtain ⟨more, rfl⟩ := within
  cases scaled with
  | none => exact Nat.zero_le _
  | @digits marker' sign' word marked' signed some all =>
    obtain ⟨mark, allowed, rfl⟩ : ∃ mark : Option Char,
        (mark = none ∨ mark = Option.some '+' ∨ mark = Option.some '-') ∧ sign' = mark.toList := by
      rcases signed with rfl | rfl | rfl
      · exact ⟨none, by simp, rfl⟩
      · exact ⟨_, .inr (.inl rfl), rfl⟩
      · exact ⟨_, .inr (.inr rfl), rfl⟩
    have solid : ∀ char ∈ (word ++ more).head?, char ≠ '-' ∧ char ≠ '+' := by
      obtain ⟨first, others, rfl⟩ := List.exists_cons_of_ne_nil some
      intro char same
      cases same
      have digit := all first List.mem_cons_self
      exact ⟨ne_of_accepts digit (by decide), ne_of_accepts digit (by decide)⟩
    have marked : marker' = 'e' ∨ marker' = 'E' := marked'
    have taken := takeWhile_ne_nil some all more
    have long := length_le_takeWhile all more
    simp only [List.cons_append, List.append_assoc, power, marked, sign_spelled allowed solid, taken, ne_eq,
      not_false_eq_true, and_self, if_true, raised, List.length_cons, List.length_append]
    omega

end Scan

/-! ### Whole numbers -/

/-- A number before what is left, each of its parts as long as it can be once those before it are taken. -/
inductive Foremost : List Char → List Char → Prop
  | parts {sign whole fraction exponent rest : List Char}
    (signed : Longest Sign sign (whole ++ (fraction ++ (exponent ++ rest))))
    (counted : Longest Whole whole (fraction ++ (exponent ++ rest)))
    (divided : Longest Fraction fraction (exponent ++ rest)) (scaled : Longest Exponent exponent rest) :
    Foremost (sign ++ whole ++ fraction ++ exponent) rest

theorem Syntax.numeral_iff {word : List Char} :
    Numeral word ↔ Chained Sign (Chained Whole (Chained Fraction Exponent)) word := by
  constructor
  · intro numeral
    obtain @⟨sign, whole, fraction, exponent, signed, counted, divided, scaled⟩ := numeral
    exact ⟨sign, _, signed, ⟨whole, _, counted, ⟨fraction, exponent, divided, scaled, rfl⟩, rfl⟩, by simp⟩
  · rintro ⟨sign, -, signed, ⟨whole, -, counted, ⟨fraction, exponent, divided, scaled, rfl⟩, rfl⟩, rfl⟩
    simpa only [List.append_assoc] using Numeral.parts signed counted divided scaled

theorem Syntax.Exponent.not_digit {token : Char} {more : List Char} (scaled : Exponent (token :: more)) :
    token.isDigit = false ∧ token ≠ '.' := by
  cases scaled with
  | digits marked => rcases marked with rfl | rfl <;> decide

theorem Syntax.Fraction.mem {word : List Char} (divided : Fraction word) {token : Char} (among : token ∈ word) :
    token = '.' ∨ token.isDigit = true := by
  cases divided with
  | none => cases among
  | digits some digits => exact (List.mem_cons.mp among).imp_right (digits token)

theorem Foremost.longest {word rest : List Char} (foremost : Foremost word rest) : Longest Numeral word rest := by
  obtain @⟨sign, whole, fraction, exponent, rest, signed, counted, divided, scaled⟩ := foremost
  -- No part goes on with a token that the next part may begin with.
  have decimals : ∀ token ∈ fraction, ∀ more, ¬Exponent (token :: more) := by
    intro token among more scaled
    rcases divided.spelled.mem among with point | digit
    · exact scaled.not_digit.2 point
    · exact absurd digit (by simp [scaled.not_digit.1])
  have digits : ∀ token ∈ whole, ∀ more, ¬Chained Fraction Exponent (token :: more) := by
    rintro token among more ⟨left, right, divided, scaled, same⟩
    have digit := counted.spelled.all_digits token among
    cases divided with
    | none =>
      rw [List.nil_append] at same
      exact absurd digit (by simp [(same ▸ scaled).not_digit.1])
    | digits =>
      cases same
      cases digit
  have minus : ∀ token ∈ sign, ∀ more, ¬Chained Whole (Chained Fraction Exponent) (token :: more) := by
    rintro token among more ⟨left, right, counted, -, same⟩
    obtain ⟨first, others, rfl, digit⟩ := counted.head_digit
    cases same
    cases signed.spelled with
    | none => cases among
    | minus =>
      cases List.mem_singleton.mp among
      cases digit
  have tail := divided.append scaled decimals
  rw [← List.append_assoc fraction] at counted signed
  have unsigned := Longest.append counted tail digits
  rw [← List.append_assoc whole] at signed
  have all := Longest.append signed unsigned minus
  rw [List.append_assoc, List.append_assoc]
  exact ⟨Syntax.numeral_iff.mpr all.spelled, fun other numeral => all.most other (Syntax.numeral_iff.mp numeral)⟩

/-! ### Replies -/

/-- What is replied where a number is asked for: it is missing, or it reads to an infinite number, or it is taken. -/
inductive Numbered (input : Input) : Reply Json → Prop
  | missing {sign rest : List Char} (ahead : input.ahead = sign ++ rest) (signed : Longest Sign sign rest)
    (missing : ∀ word, Whole word → ¬word <+: rest) :
    Numbered input (.reject (.here "number" (input.advance sign.length)))
  | infinite {word rest : List Char} {negative : Bool} (ahead : input.ahead = word ++ rest)
    (foremost : Foremost word rest) (read : Double.ofText? (String.ofList word) = some (.infinite negative)) :
    Numbered input (.reject
      ⟨"number", .refused s!"Number out of range '{String.ofList (word.map lowerMarker)}'", input.snapshot⟩)
  | taken {word rest : List Char} {value : Double} (ahead : input.ahead = word ++ rest)
    (foremost : Foremost word rest) (read : Double.ofText? (String.ofList word) = some value)
    (finite : value.isFinite = true) : Numbered input (.accept (.number value) (input.advance word.length))

theorem foremost_of_literal {ahead rest : List Char} {found : Literal}
    (taken : Scan.literal ahead = some (found, rest)) :
    ∃ marker, found.Proper ∧ Marks marker ∧ ahead = found.spelled marker ++ rest ∧
      Foremost (found.spelled marker) rest := by
  unfold Scan.literal at taken
  obtain ⟨⟨digits, middle⟩, counted, same⟩ := Option.map_eq_some_iff.mp taken
  obtain ⟨marker, marked, proper, back, scaled⟩ := Scan.longest_power (Scan.fraction middle).2
  obtain ⟨decimals, point⟩ := Scan.fraction_append middle
  obtain ⟨whole, front⟩ := Scan.whole_append counted
  simp only [Scan.parts, Prod.mk.injEq] at same
  obtain ⟨rfl, rfl⟩ := same
  refine ⟨marker, ⟨whole, decimals, proper⟩, marked, ?_, ?_⟩
  · simp only [spelled, List.append_assoc, back, point, front, Scan.minus_append]
  · have parts := Foremost.parts (by rw [back, point, front]; exact Scan.longest_minus ahead)
      (by rw [back, point]; exact Scan.longest_whole counted) (by rw [back]; exact Scan.longest_fraction middle) scaled
    simpa only [spelled, List.append_assoc] using parts

/-- Without digits after the point there is no fraction, so what stands after it is no power. -/
example : Scan.literal ['-', '1', '.', 'e', '5'] = some (⟨true, ['1'], [], none⟩, ['.', 'e', '5']) := rfl

theorem numbered_of_places {Ref : Type → Type} (ask : Ask Ref) (depths : Depths) {input : Input} {reply : Reply Json}
    (places : (numberRule.trace ask depths input.ahead).answer.Places input reply) : Numbered input reply := by
  simp only [numberRule, trace_withLabel, trace_tryMap, trace_literal] at places
  cases found : Scan.literal input.ahead with
  | none =>
    rw [found] at places
    have front := (Scan.minus_append input.ahead).symm
    simp only [Trace.bind_stopped, Trace.relabel_stopped, Stop.relabel_here] at places
    rw [← Input.ahead_advance_of_append front] at places
    rw [places.eq_reject (input.leads_advance _)]
    exact .missing front (Scan.longest_minus input.ahead)
      (Scan.not_whole (Option.map_eq_none_iff.mp found))
  | some taken =>
    obtain ⟨literal, rest⟩ := taken
    obtain ⟨marker, proper, marked, front, foremost⟩ := foremost_of_literal found
    have read := Literal.ofText?_spelled proper marked
    rw [found] at places
    simp only [Trace.bind_took, numberOf] at places
    cases size : literal.value.isFinite with
    | true =>
      simp only [size, if_true, Rule.traceRefined, Trace.relabel_took] at places
      rw [← Input.ahead_advance_of_append front] at places
      rw [places.eq_accept (input.leads_advance _)]
      exact .taken front foremost read size
    | false =>
      simp only [size, Bool.false_eq_true, if_false, Rule.traceRefined, Trace.relabel_stopped] at places
      have large : literal.value = .infinite literal.negative := Double.ofDecimal_eq_infinite size
      rw [large] at read
      rw [places.unique (.stopped (Stop.snapshot_places _ _ input)), Literal.text_eq proper marked]
      exact .infinite front foremost read

/-- Where a number is the foremost word, its first digits are not missing. -/
theorem Foremost.not_missing {word rest sign more : List Char} (foremost : Foremost word rest)
    (signed : Longest Sign sign more) (same : word ++ rest = sign ++ more)
    (missing : ∀ word, Whole word → ¬word <+: more) : False := by
  obtain ⟨signed', counted, -, -⟩ := foremost
  simp only [List.append_assoc] at same
  obtain ⟨-, rfl⟩ := signed'.unique signed same
  exact missing _ counted.spelled (List.prefix_append _ _)

theorem Foremost.unique {word rest other last : List Char} (foremost : Foremost word rest) (too : Foremost other last)
    (same : word ++ rest = other ++ last) : word = other :=
  (foremost.longest.unique too.longest same).1

namespace Numbered

variable {input : Input} {reply other : Reply Json}

/-- By the ways in which the replies come about: no two of them go together. -/
theorem unique (numbered : Numbered input reply) (too : Numbered input other) : other = reply := by
  cases numbered with
  | missing ahead signed missing =>
    cases too with
    | missing ahead' signed' =>
      obtain ⟨rfl, -⟩ := signed.unique signed' (ahead ▸ ahead')
      rfl
    | infinite ahead' foremost | taken ahead' foremost =>
      exact (foremost.not_missing signed (ahead' ▸ ahead) missing).elim
  | infinite ahead foremost read =>
    cases too with
    | missing ahead' signed missing => exact (foremost.not_missing signed (ahead ▸ ahead') missing).elim
    | infinite ahead' foremost' => rw [foremost.unique foremost' (ahead ▸ ahead')]
    | taken ahead' foremost' read' finite =>
      cases foremost.unique foremost' (ahead ▸ ahead')
      cases read.symm.trans read'
      cases finite
  | taken ahead foremost read finite =>
    cases too with
    | missing ahead' signed missing => exact (foremost.not_missing signed (ahead ▸ ahead') missing).elim
    | infinite ahead' foremost' read' =>
      cases foremost.unique foremost' (ahead ▸ ahead')
      cases read.symm.trans read'
      cases finite
    | taken ahead' foremost' read' =>
      cases foremost.unique foremost' (ahead ▸ ahead')
      cases read.symm.trans read'
      rfl

end Numbered

def numberOfText (literal : Literal) : Except String Json :=
  match Double.ofText? literal.text with
  | some value => if value.isFinite then .ok (.number value) else .error s!"Number out of range '{literal.text}'"
  | none => .error s!"Invalid number '{literal.text}'"

section Replies

variable {Ref : Type → Type} (wiring : Wiring Ref) (input : Input) (gauges : Gauges)

theorem ofText?_of_accept {found : Literal} {rest : Input}
    (accepted : (literal.parse wiring input gauges).reply = .accept found rest) :
    Double.ofText? found.text = some found.value := by
  have places := (literal.parse_agrees wiring input gauges).reply
  rw [accepted] at places
  obtain ⟨-, took⟩ := places.of_accept
  change (literal.trace _ _ _).answer = _ at took
  rw [trace_literal] at took
  cases scanned : Scan.literal input.ahead with
  | none =>
    rw [scanned] at took
    cases took
  | some taken =>
    obtain ⟨literal, after⟩ := taken
    rw [scanned] at took
    obtain ⟨rfl, -⟩ := Answer.took.inj took
    obtain ⟨-, proper, -⟩ := foremost_of_literal scanned
    rw [Literal.text, Literal.chars_eq_spelled]
    exact Literal.ofText?_spelled proper (.inl rfl)

theorem numberOfText_eq {found : Literal} (read : Double.ofText? found.text = some found.value) :
    numberOfText found = numberOf found := by
  rw [numberOfText, read]
  rfl

theorem parse_numberOfText :
    ((literal.tryMap numberOfText).withLabel "number").parse wiring input gauges =
      numberRule.parse wiring input gauges := by
  refine congrArg (Outcome.mapReply (·.relabel "number")) (Outcome.bind_congr fun found rest accepted => ?_)
  rw [numberOfText_eq (ofText?_of_accept wiring input gauges accepted)]

/-- Wherever a number is asked for, it is the longest one. It is missing if no digits come after a sign or none; the
failure is for what is found there. It is refused, at its start, if its text reads to an infinite number; and else it
is what its text reads to, and what is left is right after it. A text that is no number is never met. -/
theorem numberRule_settles :
    (∀ reply, (numberRule.parse wiring input gauges).reply = reply ↔ Numbered input reply) ∧
      (∀ value rest, (numberRule.parse wiring input gauges).reply = .accept value rest →
        ∃ word, Longest Numeral word rest.ahead ∧ input.ahead = word ++ rest.ahead) ∧
      (∀ found rest, (literal.parse wiring input gauges).reply = .accept found rest →
        Double.ofText? found.text = some found.value) ∧
      ((literal.tryMap numberOfText).withLabel "number").parse wiring input gauges =
        numberRule.parse wiring input gauges := by
  have numbered : Numbered input (numberRule.parse wiring input gauges).reply :=
    numbered_of_places _ _ (numberRule.parse_agrees wiring input gauges).reply
  refine ⟨?_, ?_, fun _ _ => ofText?_of_accept wiring input gauges, parse_numberOfText wiring input gauges⟩
  · intro reply
    exact ⟨fun same => same ▸ numbered, fun too => numbered.unique too ▸ rfl⟩
  · intro value rest accepted
    rw [accepted] at numbered
    cases numbered with
    | @taken word _ _ front foremost =>
      rw [Input.ahead_advance_of_append front]
      exact ⟨word, foremost.longest, front⟩

end Replies

end Json

end Caret
