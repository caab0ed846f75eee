import Caret.Proofs.Combinators

/-!
What a trace promises: something of the value it takes and of what is ahead then, and something of the first container
that it refuses. Promises are kept along the forms of rules, and the second one through every failure that is recovered
from, since no later refusal comes before the first.
-/

namespace Caret.Trace

variable {α β : Type} {gauge : Nat} {taken : α → List Char → Prop} {refused : Stop → Prop} {trace : Trace α}

structure Meets (gauge : Nat) (taken : α → List Char → Prop) (refused : Stop → Prop) (trace : Trace α) : Prop where
  takes : ∀ value rest, trace.answer = .took value rest → taken value rest
  refuses : ∀ stop, Note.firstRefusal gauge trace.notes = some stop → refused stop

theorem meets_took {value : α} {rest : List Char} (holds : taken value rest) :
    (Trace.took value rest).Meets gauge taken refused := by
  constructor
  · intro other last same
    cases same
    exact holds
  · simp [took]

theorem meets_stopped (stop : Stop) : (Trace.stopped stop).Meets gauge taken refused :=
  ⟨by simp [stopped], by simp [stopped]⟩

theorem Reads.meets {Word : List Char → α → Prop} {ahead : List Char} (reads : trace.Reads Word ahead) :
    trace.Meets gauge (fun value rest => ∃ word, word ++ rest = ahead ∧ Word word value) refused := by
  cases reads with
  | took front spelled => exact meets_took ⟨_, front, spelled⟩
  | stopped stop => exact meets_stopped stop

namespace Meets

theorem mono {other : α → List Char → Prop} (meets : trace.Meets gauge taken refused)
    (onward : ∀ value rest, taken value rest → other value rest) : trace.Meets gauge other refused :=
  ⟨fun value rest took => onward value rest (meets.takes value rest took), meets.refuses⟩

theorem after {notes : List Note} (meets : trace.Meets gauge taken refused)
    (before : ∀ stop, Note.firstRefusal gauge notes = some stop → refused stop) :
    (trace.after notes).Meets gauge taken refused := by
  constructor
  · exact meets.takes
  · intro stop found
    rw [Trace.after, Note.firstRefusal_append] at found
    rcases Option.or_eq_some_iff.mp found with front | ⟨-, back⟩
    · exact before stop front
    · exact meets.refuses stop back

theorem bind {further : β → List Char → Prop} {next : α → List Char → Trace β}
    (meets : trace.Meets gauge taken refused)
    (onward : ∀ value rest, taken value rest → (next value rest).Meets gauge further refused) :
    (trace.bind next).Meets gauge further refused := by
  unfold Trace.bind
  cases answer : trace.answer with
  | took value rest => exact (onward value rest (meets.takes value rest answer)).after meets.refuses
  | stopped stop => exact ⟨by simp, meets.refuses⟩
  | broken fault => exact ⟨by simp, meets.refuses⟩

theorem map {further : β → List Char → Prop} {convert : α → β} (meets : trace.Meets gauge taken refused)
    (onward : ∀ value rest, taken value rest → further (convert value) rest) :
    (trace.map convert).Meets gauge further refused :=
  meets.bind fun value rest holds => meets_took (onward value rest holds)

theorem recover {other : Trace α} (meets : trace.Meets gauge taken refused)
    (second : other.Meets gauge taken refused) : (trace.recover other).Meets gauge taken refused := by
  unfold Trace.recover
  split
  · exact second.after meets.refuses
  · exact meets

theorem relabel (meets : trace.Meets gauge taken refused) (label : String) :
    (trace.relabel label).Meets gauge taken refused := by
  unfold Trace.relabel
  split
  · exact ⟨by simp, meets.refuses⟩
  · exact meets

/-- What every round keeps up, a repetition keeps up. -/
theorem many (upheld : List Char → Prop) (collected : List Char → List α → List Char → Prop)
    (label : String) (step : List Char → Trace α) (none : ∀ ahead, upheld ahead → collected ahead [] ahead)
    (round : ∀ ahead, upheld ahead → (step ahead).Meets gauge (fun value rest => upheld rest ∧
      ∀ values last, collected rest values last → collected ahead (value :: values) last) refused)
    (ahead : List Char) (holds : upheld ahead) :
    (Trace.many label step ahead).Meets gauge (collected ahead) refused := by
  induction size : ahead.length using Nat.strongRecOn generalizing ahead with
  | ind size ih =>
    subst size
    apply Meets.recover _ (meets_took (none ahead holds))
    rw [many1_eq]
    apply (round ahead holds).bind
    intro value rest taken
    split
    · next shorter =>
      exact (ih _ shorter rest taken.1 rfl).map fun values last collected => taken.2 values last collected
    · constructor
      · intro values last same
        cases same
        exact taken.2 [] rest (none rest taken.1)
      · simp

end Meets

end Caret.Trace
