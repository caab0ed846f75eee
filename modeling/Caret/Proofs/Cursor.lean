import Caret.Input

/-!
Cursors by the tokens ahead of them. A cursor moves over its tokens only, so what a run can reach from it is told by
`Leads`; of the cursors that one cursor leads to, no two have the same tokens ahead.
-/

namespace Caret

def Line.tokens (line : Line) : List Char :=
  line.toList ++ ['\n']

namespace Input

def ahead (input : Input) : List Char :=
  match input.source.lines[input.position.line]? with
  | none => []
  | some line =>
    line.toList.drop input.position.column ++
      '\n' :: (input.source.lines.toList.drop (input.position.line + 1)).flatMap Line.tokens

theorem ahead_nextLine (input : Input) :
    (input.moveTo input.position.nextLine).ahead =
      (input.source.lines.toList.drop (input.position.line + 1)).flatMap Line.tokens := by
  simp only [ahead, moveTo, Position.nextLine, List.drop_zero]
  cases found : input.source.lines[input.position.line + 1]? with
  | none =>
    have beyond : input.source.lines.toList.length ≤ input.position.line + 1 := by
      simpa using Array.getElem?_eq_none_iff.mp found
    simp [List.drop_eq_nil_of_le beyond]
  | some line =>
    obtain ⟨bound, same⟩ := Array.getElem?_eq_some_iff.mp found
    conv => rhs; rw [List.drop_eq_getElem_cons (by simpa using bound)]
    simp [Line.tokens, ← same]

theorem next?_eq_none {input : Input} : input.next? = none ↔ input.ahead = [] := by
  unfold next? ahead
  cases input.source.lines[input.position.line]? with
  | none => simp
  | some chars => cases found : chars[input.position.column]? <;> simp [found]

theorem ahead_of_next? {input rest : Input} {token : Char} (taken : input.next? = some (token, rest)) :
    input.ahead = token :: rest.ahead := by
  unfold next? at taken
  cases found : input.source.lines[input.position.line]? with
  | none => simp [found] at taken
  | some chars =>
    simp only [found] at taken
    cases under : chars[input.position.column]? with
    | none =>
      simp only [under, Option.some.injEq, Prod.mk.injEq] at taken
      obtain ⟨rfl, rfl⟩ := taken
      have beyond : chars.toList.length ≤ input.position.column := by
        simpa using Array.getElem?_eq_none_iff.mp under
      rw [ahead_nextLine, ahead, found]
      simp only [List.drop_eq_nil_of_le beyond, List.nil_append]
    | some char =>
      simp only [under, Option.some.injEq, Prod.mk.injEq] at taken
      obtain ⟨rfl, rfl⟩ := taken
      obtain ⟨bound, same⟩ := Array.getElem?_eq_some_iff.mp under
      have split : chars.toList.drop input.position.column =
          char :: chars.toList.drop (input.position.column + 1) := by
        rw [List.drop_eq_getElem_cons (by simpa using bound)]
        simp [← same]
      simp only [ahead, moveTo, Position.nextColumn, found, split, List.cons_append]

theorem next?_of_ahead {input : Input} {token : Char} {tokens : List Char} (found : input.ahead = token :: tokens) :
    ∃ rest, input.next? = some (token, rest) ∧ rest.ahead = tokens := by
  cases taken : input.next? with
  | none => simp [next?_eq_none.mp taken] at found
  | some next =>
    obtain ⟨char, rest⟩ := next
    have same := ahead_of_next? taken
    rw [found, List.cons.injEq] at same
    exact ⟨rest, by rw [same.1], same.2.symm⟩

theorem head?_ahead {input : Input} {token : Char} :
    input.ahead.head? = some token ↔ ∃ rest, input.next? = some (token, rest) := by
  constructor
  · intro first
    obtain ⟨tokens, found⟩ := List.head?_eq_some_iff.mp first
    obtain ⟨rest, taken, -⟩ := next?_of_ahead found
    exact ⟨rest, taken⟩
  · rintro ⟨rest, taken⟩
    rw [ahead_of_next? taken, List.head?_cons]

theorem source_of_next? {input rest : Input} {token : Char} (taken : input.next? = some (token, rest)) :
    rest.source = input.source := by
  unfold next? at taken
  cases found : input.source.lines[input.position.line]? with
  | none => simp [found] at taken
  | some chars =>
    cases under : chars[input.position.column]? <;>
      · simp only [found, under, Option.some.injEq, Prod.mk.injEq] at taken
        rw [← taken.2, moveTo]

/-! ### How far a cursor leads -/

/-- The second cursor is reached from the first by taking tokens. -/
inductive Leads : Input → Input → Prop
  | here (input : Input) : Leads input input
  | step {input next rest : Input} {token : Char} (taken : input.next? = some (token, next))
      (further : Leads next rest) : Leads input rest

namespace Leads

variable {first second third : Input}

theorem trans (front : Leads first second) (back : Leads second third) : Leads first third := by
  induction front with
  | here => exact back
  | step taken _ ih => exact .step taken (ih back)

theorem of_next? {token : Char} (taken : first.next? = some (token, second)) : Leads first second :=
  .step taken (.here second)

theorem source (leads : Leads first second) : second.source = first.source := by
  induction leads with
  | here => rfl
  | step taken _ ih => rw [ih, source_of_next? taken]

theorem ahead_suffix (leads : Leads first second) : second.ahead <:+ first.ahead := by
  induction leads with
  | here => exact List.suffix_refl _
  | step taken _ ih =>
    rw [ahead_of_next? taken]
    exact ih.trans (List.suffix_cons _ _)

theorem length_le (leads : Leads first second) : second.ahead.length ≤ first.ahead.length :=
  leads.ahead_suffix.length_le

/-- The way is as long as the tokens that are no longer ahead. -/
theorem eq_advance (leads : Leads first second) :
    second = first.advance (first.ahead.length - second.ahead.length) := by
  induction leads with
  | here => simp [advance]
  | @step input next rest token taken further ih =>
    have shorter := further.length_le
    have size : input.ahead.length - rest.ahead.length = next.ahead.length - rest.ahead.length + 1 := by
      rw [ahead_of_next? taken, List.length_cons]
      omega
    rw [size, advance, taken]
    exact ih

theorem unique {other : Input} (leads : Leads first second) (too : Leads first other)
    (same : second.ahead = other.ahead) : second = other := by
  rw [leads.eq_advance, too.eq_advance, same]

/-- A cursor that has moved is at another place. -/
theorem position_eq_iff (leads : Leads first second) :
    second.position = first.position ↔ second.ahead.length = first.ahead.length := by
  constructor
  · intro same
    have equal : second = first := by
      have source := leads.source
      cases first
      cases second
      simp_all
    rw [equal]
  · intro same
    rw [leads.unique (.here first) (leads.ahead_suffix.eq_of_length same)]

end Leads

theorem leads_advance (input : Input) (count : Nat) : Leads input (input.advance count) := by
  induction count generalizing input with
  | zero => exact .here input
  | succ count ih =>
    rw [advance]
    cases taken : input.next? with
    | none => exact .here input
    | some next => exact .step taken (ih next.2)

theorem ahead_advance (input : Input) (count : Nat) : (input.advance count).ahead = input.ahead.drop count := by
  induction count generalizing input with
  | zero => rfl
  | succ count ih =>
    rw [advance]
    cases taken : input.next? with
    | none => simp [next?_eq_none.mp taken]
    | some next => rw [ih, ahead_of_next? taken, List.drop_succ_cons]

theorem ahead_advance_of_append {input : Input} {word rest : List Char} (front : input.ahead = word ++ rest) :
    (input.advance word.length).ahead = rest := by
  rw [ahead_advance, front, List.drop_left]

/-! ### What a source bounds -/

theorem length_flatMap_tokens (lines : List Line) : (lines.flatMap Line.tokens).length = tokenCount lines := by
  induction lines with
  | nil => rfl
  | cons line lines ih =>
    rw [List.flatMap_cons, List.length_append, ih]
    simp [Line.tokens, tokenCount]

theorem length_ahead_le (input : Input) : input.ahead.length ≤ input.source.size := by
  have whole : input.ahead.length ≤ (input.source.lines.toList.flatMap Line.tokens).length := by
    unfold ahead
    cases found : input.source.lines[input.position.line]? with
    | none => simp
    | some line =>
      obtain ⟨bound, same⟩ := Array.getElem?_eq_some_iff.mp found
      have cut := List.take_append_drop input.position.line input.source.lines.toList
      rw [List.drop_eq_getElem_cons (by simpa using bound), Array.getElem_toList, same] at cut
      have size := congrArg (fun lines => (lines.flatMap Line.tokens).length) cut
      simp only [List.length_append, List.flatMap_append, List.flatMap_cons, List.length_cons, List.length_drop,
        Line.tokens, List.length_nil] at size ⊢
      omega
  rw [length_flatMap_tokens] at whole
  rw [input.source.size_eq]
  exact whole

theorem take_eq (input : Input) (count : Nat) : input.take count = input.ahead.take count := by
  induction count generalizing input with
  | zero => rfl
  | succ count ih =>
    rw [take]
    cases taken : input.next? with
    | none => simp [next?_eq_none.mp taken]
    | some next => simp [ih, ahead_of_next? taken]

theorem tokens_eq_ahead (input : Input) : input.tokens = input.ahead := by
  rw [tokens, take_eq, List.take_of_length_le input.length_ahead_le]

theorem seek_eq (passes : Char → Bool) (count : Nat) (input : Input) (enough : input.ahead.length ≤ count) :
    input.seek passes count = (input.ahead.dropWhile passes).head? := by
  induction count generalizing input with
  | zero => simp [seek, List.eq_nil_of_length_eq_zero (Nat.le_zero.mp enough)]
  | succ count ih =>
    rw [seek]
    cases taken : input.next? with
    | none => simp [next?_eq_none.mp taken]
    | some next =>
      obtain ⟨token, rest⟩ := next
      rw [ahead_of_next? taken] at enough ⊢
      cases passing : passes token with
      | false => simp [passing]
      | true => simp [passing, ih rest (by simpa using enough)]

theorem firstSolid?_eq (input : Input) : input.firstSolid? = (input.ahead.dropWhile Text.isBlank).head? :=
  seek_eq _ _ _ input.length_ahead_le

end Input

end Caret
