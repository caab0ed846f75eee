import Caret.Proofs.Json.Overflow
import Caret.Proofs.Json.Sharing

/-!
Readings under different limits. A refusal is noted only where more brackets open than the limit allows, so a document
that is accepted notes none; and where none is noted, a larger limit gives the same trace. So all that a larger limit
changes is the answer that some container nests too deep.
-/

namespace Caret.Json

/-- A refusal tells of more open brackets than the limit. -/
theorem Refused.lt_peak {limit : Nat} {whole : List Char} {stop : Stop} (refused : Refused limit whole stop) :
    limit < (Brackets.after whole).peak := by
  obtain ⟨front, same, plain, opened, low⟩ := refused.place
  obtain ⟨rest, bracket⟩ := refused.bracket
  apply Nat.lt_of_not_le
  intro within
  have each := ((Brackets.peak_through_le_iff {} whole limit).mp within).2
  rcases bracket with ⟨named, ahead⟩ | ⟨named, ahead⟩
  · have fewer := each front '[' rest (by rw [← same, ahead]) plain (.inl rfl)
    exact absurd opened (Nat.ne_of_lt fewer)
  · have fewer := each front '\x7b' rest (by rw [← same, ahead]) plain (.inr rfl)
    exact absurd opened (Nat.ne_of_lt fewer)

section Documents

variable {text : String} {options : Options}

theorem lt_peak_of_tooDeep {limit : Nat} {failure : Failure}
    (failed : parse text options = .error (.tooDeep limit failure)) :
    options.maxDepth < (Brackets.after (Input.ofText text).tokens).peak := by
  obtain ⟨budget, -, settles⟩ := parse_settles text options
  rw [failed] at settles
  rw [Input.tokens_eq_ahead]
  cases settles with
  | tooDeep stopped refused places => exact ((meets_document value_wired budget rfl).refuses _ refused).lt_peak

theorem parse_ne_broken (fault : Fault) : parse text options ≠ .error (.broken fault) := by
  intro broke
  obtain ⟨budget, enough, settles⟩ := parse_settles text options
  rw [broke] at settles
  cases settles with
  | broken broke => exact Grammar.sound_document options enough _ fault broke

/-- A document that is accepted has no container refused on the way. -/
theorem silent_of_accepted {value : Json} (accepted : parse text options = .ok value) (budget : Nat) :
    Note.firstRefusal 0 ((Grammar.ofOptions options).document.trace ((Grammar.ofOptions options).wiring.ask budget)
      (fun _ => 0) (Input.ofText text).ahead).notes = none := by
  have low := Brackets.peak_document (document_of_parse accepted)
  rw [Input.tokens_eq_ahead] at low
  refine Option.eq_none_iff_forall_ne_some.mpr fun stop found => ?_
  have refused : Refused options.maxDepth (Input.ofText text).ahead stop :=
    (meets_document value_wired budget rfl).refuses stop found
  exact absurd refused.lt_peak (Nat.not_lt_of_le low)

end Documents

/-- A trace without refusals settles the same under any limit. -/
theorem Settles.anew {input : Input} {gauge limit larger : Nat} {trace move : Trace Json} {result : Except Error Json}
    (settles : Settles input gauge limit trace result) (silent : Note.firstRefusal gauge trace.notes = none)
    (answer : move.answer = trace.answer) (still : Note.firstRefusal gauge move.notes = none) :
    Settles input gauge larger move result := by
  cases settles with
  | accepted took => exact .accepted (answer.trans took)
  | malformed stopped quiet places => exact .malformed (answer.trans stopped) still places
  | tooDeep stopped refused places => exact absurd refused (by simp [silent])
  | broken broke => exact .broken (answer.trans broke)

/-- A reading that does not end for its nesting is the same under every larger limit. -/
theorem parse_of_higher {text : String} {options : Options} {larger : Nat} (higher : options.maxDepth ≤ larger)
    (shallow : ∀ limit failure, parse text options ≠ .error (.tooDeep limit failure)) :
    parse text { options with maxDepth := larger } = parse text options := by
  obtain ⟨budget, enough, settles⟩ := parse_settles text options
  obtain ⟨budget', enough', settled⟩ := parse_settles text { options with maxDepth := larger }
  have silent : Note.firstRefusal 0 ((Grammar.ofOptions options).document.trace
      ((Grammar.ofOptions options).wiring.ask budget) (fun _ => 0) (Input.ofText text).ahead).notes = none := by
    generalize same : parse text options = result at settles
    cases settles with
    | accepted took => exact silent_of_accepted same budget
    | malformed stopped silent places => exact silent
    | tooDeep stopped refused places => exact absurd same (shallow _ _)
    | broken broke => exact absurd broke (Grammar.sound_document options enough _ _)
  have alike := document_eq_of_silent higher enough enough' silent
  have still := (Note.firstRefusal_recast (raised larger) 0 _).trans silent
  rw [alike] at settled
  have lifted : Settles _ 0 larger (Trace.recast (raised larger) _) (parse text options) :=
    settles.anew silent rfl still
  exact lifted.unique settled rfl rfl

/-- Raising the limit keeps every value and every failure that is not about the nesting. -/
theorem parse_raised (text : String) (policy : DuplicateKeys) {limit larger : Nat} (higher : limit ≤ larger) :
    (∀ value, parse text ⟨policy, limit⟩ = .ok value → parse text ⟨policy, larger⟩ = .ok value) ∧
      ∀ failure, parse text ⟨policy, limit⟩ = .error (.malformed failure) →
        parse text ⟨policy, larger⟩ = .error (.malformed failure) := by
  constructor
  · intro value accepted
    have shallow : ∀ bound failure, parse text ⟨policy, limit⟩ ≠ .error (.tooDeep bound failure) := by simp [accepted]
    exact (@parse_of_higher text ⟨policy, limit⟩ larger higher shallow).trans accepted
  · intro failure failed
    have shallow : ∀ bound failure, parse text ⟨policy, limit⟩ ≠ .error (.tooDeep bound failure) := by simp [failed]
    exact (@parse_of_higher text ⟨policy, limit⟩ larger higher shallow).trans failed

/-- Two arrays where two may be open, and an array at the limit that ends with a comma. -/
theorem parse_raised_from_two :
    parse "[[]]" ⟨.reject, 9⟩ = .ok (.array [.array []]) ∧
      parse "[[null,]]" ⟨.lastWins, 9⟩ = parse "[[null,]]" ⟨.lastWins, 2⟩ :=
  ⟨(parse_raised "[[]]" .reject (show 2 ≤ 9 by decide)).1 _ rfl,
    (parse_raised "[[null,]]" .lastWins (show 2 ≤ 9 by decide)).2 _ rfl⟩

end Caret.Json
