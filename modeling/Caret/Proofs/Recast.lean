import Caret.Proofs.Progress

/-!
The same rules over other references, on other gauges and with limits at least as high. If limits stay as they are, or
nothing is refused, the traces are the same but for the gauges. The tokens ahead bound how deep references go on either
side, so the two may be traced to different depths.
-/

namespace Caret

structure Recast (Ref Ref' : Type → Type) where
  link : {α : Type} → Ref α → Ref' α
  gauge : Nat → Nat
  /-- The limit on a gauge in place of another. -/
  limit : Nat → Nat → Nat
  /-- No two gauges become one. -/
  apart : ∀ first second, gauge first = gauge second → first = second
  higher : ∀ gauge old, old ≤ limit gauge old

section Definitions

variable {Ref Ref' : Type → Type} (change : Recast Ref Ref')

def Rule.recast : {α : Type} → Rule Ref α → Rule Ref' α
  | _, .satisfy accepts label => .satisfy accepts label
  | _, .finish label => .finish label
  | _, .always value => .always value
  | _, .fail label message => .fail label message
  | _, .report log => .report log
  | _, .bind rule next => .bind (recast rule) fun value => recast (next value)
  | _, .refine label rule convert => .refine label (recast rule) convert
  | _, .orElse first second => .orElse (recast first) (recast second)
  | _, .many1 label rule => .many1 label (recast rule)
  | _, .relabel label rule => .relabel label (recast rule)
  | _, .forward label ref => .forward label (change.link ref)
  | _, .nested gauge label opener limit body =>
    .nested (change.gauge gauge) label opener (change.limit gauge limit) (recast body)

def Note.recast : Note → Note
  | .refused gauge label limit ahead => .refused (change.gauge gauge) label limit ahead
  | .stalled label ahead => .stalled label ahead
  | .said log => .said log

def Trace.recast {α : Type} (trace : Trace α) : Trace α :=
  ⟨trace.answer, trace.notes.map (Note.recast change)⟩

def Recast.Keeps (notes : List Note) : Prop :=
  ∀ gauge, (∀ limit, change.limit gauge limit = limit) ∨ Note.firstRefusal gauge notes = none

/-- The other trace is the same but for the gauges, if no change of a limit matters. -/
def Recast.Matches {α : Type} (trace other : Trace α) : Prop :=
  change.Keeps trace.notes → other = trace.recast change

end Definitions

section Keeping

variable {Ref Ref' : Type → Type} {α β : Type} {change : Recast Ref Ref'}

theorem Recast.keeps_append {first second : List Note} :
    change.Keeps (first ++ second) ↔ change.Keeps first ∧ change.Keeps second := by
  simp only [Recast.Keeps, Note.firstRefusal_append, Option.or_eq_none_iff, or_and_left, forall_and]

theorem Note.firstRefusal_recast (change : Recast Ref Ref') (gauge : Nat) (notes : List Note) :
    firstRefusal (change.gauge gauge) (notes.map (Note.recast change)) = firstRefusal gauge notes := by
  induction notes with
  | nil => rfl
  | cons note notes ih =>
    have same : refusal? (change.gauge gauge) (note.recast change) = refusal? gauge note := by
      cases note with
      | refused other label limit ahead =>
        by_cases equal : other = gauge
        · simp [refusal?, Note.recast, equal]
        · have apart : change.gauge other ≠ change.gauge gauge := fun same => equal (change.apart _ _ same)
          simp [refusal?, Note.recast, equal, apart]
      | stalled label ahead => rfl
      | said log => rfl
    simp only [firstRefusal, List.map_cons, List.findSome?_cons, same] at ih ⊢
    rw [ih]

theorem Recast.Matches.refl_took (value : α) (ahead : List Char) :
    change.Matches (Trace.took value ahead) (.took value ahead) := fun _ => rfl

theorem Recast.Matches.refl_stopped (stop : Stop) :
    change.Matches (Trace.stopped stop : Trace α) (.stopped stop) := fun _ => rfl

theorem Recast.Matches.after {trace other : Trace α} (alike : change.Matches trace other) (notes : List Note) :
    change.Matches (trace.after notes) (other.after (notes.map (Note.recast change))) := by
  intro both
  rw [alike (Recast.keeps_append.mp both).2]
  simp only [Trace.after, Trace.recast, List.map_append]

theorem Recast.Matches.bind {trace other : Trace α} {next further : α → List Char → Trace β}
    (alike : change.Matches trace other)
    (onward : ∀ value rest, trace.answer = .took value rest → change.Matches (next value rest) (further value rest)) :
    change.Matches (trace.bind next) (other.bind further) := by
  intro keeps
  unfold Trace.bind at keeps ⊢
  cases answer : trace.answer with
  | took value rest =>
    rw [answer] at keeps
    have front := (Recast.keeps_append.mp keeps).1
    rw [alike front]
    simp only [Trace.recast, answer]
    exact (onward value rest answer).after trace.notes keeps
  | stopped stop =>
    rw [answer] at keeps
    rw [alike keeps]
    simp only [Trace.recast, answer]
  | broken fault =>
    rw [answer] at keeps
    rw [alike keeps]
    simp only [Trace.recast, answer]

theorem Recast.Matches.recover {trace other second last : Trace α} (alike : change.Matches trace other)
    (onward : change.Matches second last) : change.Matches (trace.recover second) (other.recover last) := by
  intro keeps
  unfold Trace.recover at keeps ⊢
  cases answer : trace.answer with
  | stopped stop =>
    rw [answer] at keeps
    have front := (Recast.keeps_append.mp keeps).1
    rw [alike front]
    simp only [Trace.recast, answer]
    exact onward.after trace.notes keeps
  | took value rest =>
    rw [answer] at keeps
    rw [alike keeps]
    simp only [Trace.recast, answer]
  | broken fault =>
    rw [answer] at keeps
    rw [alike keeps]
    simp only [Trace.recast, answer]

theorem Recast.Matches.relabel {trace other : Trace α} (alike : change.Matches trace other) (label : String) :
    change.Matches (trace.relabel label) (other.relabel label) := by
  intro keeps
  unfold Trace.relabel at keeps ⊢
  cases answer : trace.answer <;>
  · rw [answer] at keeps
    rw [alike keeps]
    simp only [Trace.recast, answer]

theorem Recast.Matches.map {trace other : Trace α} (alike : change.Matches trace other) (convert : α → β) :
    change.Matches (trace.map convert) (other.map convert) :=
  alike.bind fun value rest _ => .refl_took (convert value) rest

theorem Recast.Matches.many1 {label : String} {step move : List Char → Trace α} (ahead : List Char)
    (alike : ∀ rest, rest.length ≤ ahead.length → change.Matches (step rest) (move rest)) :
    change.Matches (Trace.many1 label step ahead) (Trace.many1 label move ahead) := by
  induction size : ahead.length using Nat.strongRecOn generalizing ahead with
  | ind size ih =>
    subst size
    rw [Trace.many1_eq, Trace.many1_eq]
    refine (alike ahead (Nat.le_refl _)).bind fun value rest _ => ?_
    split
    · next shorter =>
      have further := ih _ shorter rest (fun later short => alike later (by omega)) rfl
      exact (further.recover (.refl_took _ _)).map _
    · exact fun _ => rfl

theorem Depths.deeper_recast (gauge : Nat) {depths other : Depths}
    (level : ∀ gauge, other (change.gauge gauge) = depths gauge)
    (gauge' : Nat) : (other.deeper (change.gauge gauge)) (change.gauge gauge') = (depths.deeper gauge) gauge' := by
  unfold Depths.deeper
  by_cases same : gauge' = gauge
  · rw [same, if_pos rfl, if_pos rfl, level]
  · have apart : change.gauge gauge' ≠ change.gauge gauge := fun equal => same (change.apart _ _ equal)
    rw [if_neg same, if_neg apart, level]

theorem Recast.Matches.nested {gauge limit : Nat} {label : String} {opener : Char}
    {body move : Depths → List Char → Trace α} {depths other : Depths} {ahead : List Char}
    (level : ∀ gauge, other (change.gauge gauge) = depths gauge)
    (inside : change.Matches (body (depths.deeper gauge) ahead) (move (other.deeper (change.gauge gauge)) ahead)) :
    change.Matches (Rule.traceNested gauge label opener limit body depths ahead)
      (Rule.traceNested (change.gauge gauge) label opener (change.limit gauge limit) move other ahead) := by
  unfold Rule.traceNested
  rw [level]
  by_cases opening : (ahead.dropWhile Text.isBlank).head? == some opener
  · simp only [opening, Bool.and_true, decide_eq_true_eq]
    by_cases full : limit ≤ depths gauge
    · -- A refusal is noted, so limits are the same.
      rw [if_pos full]
      intro keeps
      have same : change.limit gauge limit = limit := by
        rcases keeps gauge with same | silent
        · exact same limit
        · exact absurd silent (by simp [Note.firstRefusal, Note.refusal?])
      rw [same, if_pos full]
      rfl
    · have higher := change.higher gauge limit
      rw [if_neg full, if_neg (by omega)]
      exact inside
  · simp only [opening, Bool.and_false, Bool.false_eq_true, if_false]
    exact inside

end Keeping

/-! ### Rules and references -/

section Tracing

variable {Ref Ref' : Type → Type} {α : Type} {change : Recast Ref Ref'}

/-- Rules match as far as references do; a guarded rule one token further. -/
theorem Rule.trace_recast {ask : Ask Ref} {ask' : Ask Ref'} (within : Ask.Within ask) (bound : Nat)
    (asks : ∀ {α : Type} (label : String) (ref : Ref α) (depths other : Depths) (ahead : List Char),
      ahead.length < bound → (∀ gauge, other (change.gauge gauge) = depths gauge) →
      change.Matches (ask label ref depths ahead) (ask' label (change.link ref) other ahead))
    (rule : Rule Ref α) {depths other : Depths} (level : ∀ gauge, other (change.gauge gauge) = depths gauge)
    (ahead : List Char) (near : rule.Near bound ahead) :
    change.Matches (rule.trace ask depths ahead) ((rule.recast change).trace ask' other ahead) := by
  induction rule generalizing depths other ahead with
  | satisfy accepts label =>
    intro keeps
    show traceSatisfy accepts label ahead = (traceSatisfy accepts label ahead).recast change
    unfold traceSatisfy
    split
    · rfl
    · split <;> rfl
  | finish label =>
    intro keeps
    show traceFinish label ahead = (traceFinish label ahead).recast change
    unfold traceFinish
    split <;> rfl
  | always value => exact .refl_took value ahead
  | fail label message => exact .refl_stopped _
  | report log => exact fun _ => rfl
  | bind rule next ihRule ihNext =>
    have first := ihRule level ahead (near.imp_right fun near => ⟨near.1, near.2.1⟩)
    exact first.bind fun value rest taken => ihNext value level rest (near.next within taken)
  | refine label rule convert ih =>
    refine (ih level ahead near).bind fun value rest _ => ?_
    cases convert value with
    | ok value => exact .refl_took value rest
    | error message => exact .refl_stopped _
  | orElse first second ihFirst ihSecond =>
    exact (ihFirst level ahead (near.imp_right fun near => ⟨near.1, near.2.1⟩)).recover
      (ihSecond level ahead (near.imp_right fun near => ⟨near.1, near.2.2⟩))
  | many1 label rule ih =>
    exact .many1 ahead fun rest short => ih level rest (near.shorter short)
  | relabel label rule ih => exact (ih level ahead near).relabel label
  | forward label ref =>
    rcases near with near | near
    · exact asks label ref depths other ahead near level
    · exact near.2.elim
  | nested gauge label opener limit body ih =>
    exact .nested level (ih (Depths.deeper_recast gauge level) ahead near)

def Recast.Wires (change : Recast Ref Ref') (wiring : Wiring Ref) (wiring' : Wiring Ref') : Prop :=
  ∀ {α : Type} (ref : Ref α) (rule : Rule Ref α), wiring.target ref = some rule →
    wiring'.target (change.link ref) = some (rule.recast change)

theorem Wiring.ask_recast {wiring : Wiring Ref} {wiring' : Wiring Ref'} (wires : change.Wires wiring wiring')
    (guarded : wiring.Guarded) (budget budget' : Nat) (label : String) (ref : Ref α) (depths other : Depths)
    (ahead : List Char) (enough : ahead.length < budget) (enough' : ahead.length < budget')
    (level : ∀ gauge, other (change.gauge gauge) = depths gauge) :
    change.Matches (wiring.ask budget label ref depths ahead)
      (wiring'.ask budget' label (change.link ref) other ahead) := by
  induction budget generalizing α budget' label ref depths other ahead with
  | zero => omega
  | succ budget ih =>
    obtain ⟨less, rfl⟩ : ∃ less, budget' = less + 1 := ⟨budget' - 1, by omega⟩
    obtain ⟨rule, wired, guard⟩ := guarded ref
    rw [ask_succ, ask_succ, wired, wires ref rule wired]
    refine rule.trace_recast (wiring.within_ask budget) (min budget less) ?_ level ahead
      (.inr ⟨by omega, guard⟩)
    intro α label ref depths other ahead short level
    exact ih less label ref depths other ahead (by omega) (by omega) level

/-- Rules match over wirings that match, as long as both follow references deep enough. -/
theorem Rule.trace_recast_wired {wiring : Wiring Ref} {wiring' : Wiring Ref'} (wires : change.Wires wiring wiring')
    (guarded : wiring.Guarded) (rule : Rule Ref α) (depths other : Depths) {budget budget' : Nat} {ahead : List Char}
    (enough : ahead.length < budget) (enough' : ahead.length < budget')
    (level : ∀ gauge, other (change.gauge gauge) = depths gauge) :
    change.Matches (rule.trace (wiring.ask budget) depths ahead)
      ((rule.recast change).trace (wiring'.ask budget') other ahead) := by
  refine rule.trace_recast (wiring.within_ask budget) (min budget budget') ?_ level ahead (.inl (by omega))
  intro α label ref depths other ahead short level
  exact wiring.ask_recast wires guarded budget budget' label ref depths other ahead (by omega) (by omega) level

end Tracing

end Caret
