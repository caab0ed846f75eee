import Caret.Proofs.Json.Acceptance
import Caret.Proofs.Json.Linking

/-!
Documents that nest too deep. The error names the first bracket that opens past the limit: a refusal that was noted is
the first one, and it stands at such a bracket. Conversely a run that notes no refusal goes as it would go under any
larger limit, so a document that fails for its nesting alone fails with a refusal.
-/

namespace Caret.Json

/-- The first bracket that opens past a limit, after the tokens before it: it stands outside of strings with as many open
as the limit allows, and no earlier one did. -/
structure FirstPast (limit : Nat) (before : List Char) (bracket : Char) : Prop where
  opens : Brackets.Opens bracket
  plain : (Brackets.after before).mode = .plain
  full : (Brackets.after before).opened = limit
  earlier : ∀ front char behind, before = front ++ char :: behind → (Brackets.after front).mode = .plain →
    Brackets.Opens char → (Brackets.after front).opened < limit

def labelOf (bracket : Char) : String :=
  if bracket = '[' then "array" else "object"

def PointsPast (text : String) (limit : Nat) (failure : Failure) : Prop :=
  ∃ before bracket behind, (Input.ofText text).tokens = before ++ bracket :: behind ∧
    failure.place = ((Input.ofText text).advance before.length).snapshot ∧ failure.label = labelOf bracket ∧
    failure.message = s!"Nesting too deep, limit is {limit}" ∧ FirstPast limit before bracket

theorem Refused.pointsPast {text : String} {limit : Nat} {stop : Stop} {failure : Failure}
    (refused : Refused limit (Input.ofText text).ahead stop) (places : stop.Places (Input.ofText text) failure) :
    PointsPast text limit failure := by
  obtain ⟨place, leads, ahead, shot⟩ := places.place
  obtain ⟨before, whole, plain, opened, low⟩ := refused.place
  have label := places.label
  have message : failure.message = s!"Nesting too deep, limit is {limit}" := by
    rw [Failure.message, places.reason, refused.reason]
    rfl
  have spot : failure.place = ((Input.ofText text).advance before.length).snapshot := by
    have size : (Input.ofText text).ahead.length - place.ahead.length = before.length := by
      rw [← whole, ahead, List.length_append]
      omega
    rw [shot, leads.eq_advance, size]
  have earlier := ((Brackets.peak_through_le_iff {} before limit).mp low).2
  obtain ⟨rest, bracket⟩ := refused.bracket
  rcases bracket with ⟨named, same⟩ | ⟨named, same⟩
  · refine ⟨before, '[', rest, ?_, spot, by rw [label, named]; rfl, message, .inl rfl, plain, opened, earlier⟩
    rw [Input.tokens_eq_ahead, ← whole, same]
  · refine ⟨before, '\x7b', rest, ?_, spot, by rw [label, named]; rfl, message, .inr rfl, plain, opened, earlier⟩
    rw [Input.tokens_eq_ahead, ← whole, same]

def raised (larger : Nat) : Recast Link Link where
  link ref := ref
  gauge gauge := gauge
  limit gauge limit := if gauge = 0 then max limit larger else limit
  apart _ _ same := same
  higher gauge limit := by
    split
    · exact Nat.le_max_left limit larger
    · exact Nat.le_refl limit

theorem raised_options {options : Options} {larger : Nat} (higher : options.maxDepth ≤ larger) :
    options.recast (raised larger) 0 = { options with maxDepth := larger } := by
  simp [Options.recast, raised, Nat.max_eq_right higher]

theorem raised_wires {options : Options} {larger : Nat} (higher : options.maxDepth ≤ larger) :
    (raised larger).Wires (Grammar.ofOptions options).wiring
      (Grammar.ofOptions { options with maxDepth := larger }).wiring := by
  intro α ref rule wired
  cases ref with
  | value =>
    cases wired
    have same := recast_alternatives (raised larger) Link.value 0 options
    rw [raised_options higher] at same
    exact congrArg some same.symm

/-- Where no refusal is noted, a larger limit makes no difference. -/
theorem document_eq_of_silent {options : Options} {larger budget budget' : Nat} {ahead : List Char} {depths : Depths}
    (higher : options.maxDepth ≤ larger) (enough : ahead.length < budget) (enough' : ahead.length < budget')
    (silent : Note.firstRefusal 0 ((Grammar.ofOptions options).document.trace
      ((Grammar.ofOptions options).wiring.ask budget) depths ahead).notes = none) :
    (Grammar.ofOptions { options with maxDepth := larger }).document.trace
      ((Grammar.ofOptions { options with maxDepth := larger }).wiring.ask budget') depths ahead =
      ((Grammar.ofOptions options).document.trace ((Grammar.ofOptions options).wiring.ask budget) depths ahead).recast
        (raised larger) := by
  have alike := Rule.trace_recast_wired (raised_wires higher) (Grammar.guarded_wiring options)
    (Grammar.ofOptions options).document.rule depths depths enough enough' fun _ => rfl
  have same : (Grammar.ofOptions options).document.rule.recast (raised larger) =
      (Grammar.ofOptions { options with maxDepth := larger }).document.rule := by
    have whole := recast_document (raised larger) Link.value 0 options
    rwa [raised_options higher] at whole
  rw [same] at alike
  have keeps : (raised larger).Keeps ((Grammar.ofOptions options).document.trace
      ((Grammar.ofOptions options).wiring.ask budget) depths ahead).notes := by
    intro gauge
    by_cases own : gauge = 0
    · rw [own]
      exact .inr silent
    · exact .inl fun limit => if_neg own
  exact alike keeps

section Reported

variable {text : String} {options : Options}

theorem tooDeep_pointsPast {limit : Nat} {failure : Failure}
    (failed : parse text options = .error (.tooDeep limit failure)) :
    limit = options.maxDepth ∧ PointsPast text options.maxDepth failure := by
  obtain ⟨budget, -, settles⟩ := parse_settles text options
  rw [failed] at settles
  cases settles with
  | tooDeep stopped refused places =>
    exact ⟨rfl, ((meets_document value_wired budget rfl).refuses _ refused).pointsPast places⟩

theorem tooDeep_of_nested {larger : Nat} {value : Json} (higher : options.maxDepth ≤ larger)
    (accepted : parse text { options with maxDepth := larger } = .ok value)
    (nested : options.maxDepth < (Brackets.after (Input.ofText text).tokens).peak) :
    ∃ failure, parse text options = .error (.tooDeep options.maxDepth failure) := by
  obtain ⟨budget, enough, settles⟩ := parse_settles text options
  obtain ⟨budget', enough', settled⟩ := parse_settles text { options with maxDepth := larger }
  rw [accepted] at settled
  generalize failed : parse text options = result at settles
  cases settles with
  | accepted took =>
    have low := Brackets.peak_document (document_of_parse failed)
    omega
  | malformed stopped silent places =>
    rw [document_eq_of_silent higher enough enough' silent] at settled
    cases settled with
    | accepted took =>
      rw [show (Trace.recast _ _).answer = _ from stopped] at took
      cases took
  | @tooDeep stop refusal failure stopped refused places => exact ⟨failure, rfl⟩
  | @broken fault broke => exact absurd broke (Grammar.sound_document options enough _ fault)

/-- Nesting too deep is reported at the first bracket that opens past the limit, and for every document that only the
limit keeps out. -/
theorem nesting_reported (text : String) (options : Options) :
    (∀ limit failure, parse text options = .error (.tooDeep limit failure) →
      limit = options.maxDepth ∧ PointsPast text options.maxDepth failure) ∧
    ∀ larger value, options.maxDepth ≤ larger → parse text { options with maxDepth := larger } = .ok value →
      options.maxDepth < (Brackets.after (Input.ofText text).tokens).peak →
      ∃ failure, parse text options = .error (.tooDeep options.maxDepth failure) ∧
        PointsPast text options.maxDepth failure := by
  constructor
  · intro limit failure failed
    exact tooDeep_pointsPast failed
  · intro larger value higher accepted nested
    obtain ⟨failure, failed⟩ := tooDeep_of_nested higher accepted nested
    exact ⟨failure, failed, (tooDeep_pointsPast failed).2⟩

/-- Two brackets where one is allowed, and three where two are. -/
theorem nesting_reported_twice :
    (∃ failure, parse "[[]]" ⟨.lastWins, 1⟩ = .error (.tooDeep 1 failure) ∧ PointsPast "[[]]" 1 failure) ∧
      PointsPast "[\x7b\"[\":[]\x7d]" 2
        ⟨"array", .tooDeep 2, ⟨Line.ofText "[\x7b\"[\":[]\x7d]", ⟨0, 6⟩⟩⟩ :=
  ⟨(nesting_reported "[[]]" ⟨.lastWins, 1⟩).2 2 (.array [.array []]) (by decide) rfl (by decide),
    ((nesting_reported "[\x7b\"[\":[]\x7d]" ⟨.reject, 2⟩).1 2 _ rfl).2⟩

end Reported

end Caret.Json
