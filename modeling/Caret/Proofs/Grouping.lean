import Caret.Proofs.Repetition

/-!
Choices and sequences however they are grouped. A choice comes to what the first of its parsers comes to that does not
fail, or to what the last one comes to, each of them run at the same place with the gauges that those before it left.
So a block of alternatives may be a choice of its own, and a sequence may be cut in two, without a difference in the
reply, the gauges or the log.
-/

namespace Caret

/-! ### Outcomes one after the other -/

namespace Outcome

variable {α β γ : Type}

theorem after_after (first second : Log) (outcome : Outcome α) :
    (outcome.after second).after first = outcome.after (first ++ second) := by
  simp [after]

theorem after_bind (log : Log) (outcome : Outcome α) (next : α → Input → Gauges → Outcome β) :
    (outcome.after log).bind next = (outcome.bind next).after log := by
  obtain ⟨reply, gauges, more⟩ := outcome
  cases reply <;> simp [bind, after]

theorem after_recover (log : Log) (outcome : Outcome α) (other : Gauges → Outcome α) :
    (outcome.after log).recover other = (outcome.recover other).after log := by
  obtain ⟨reply, gauges, more⟩ := outcome
  cases reply <;> simp [recover, after]

theorem bind_bind (outcome : Outcome α) (next : α → Input → Gauges → Outcome β)
    (last : β → Input → Gauges → Outcome γ) :
    (outcome.bind next).bind last = outcome.bind fun value rest gauges => (next value rest gauges).bind last := by
  obtain ⟨reply, gauges, log⟩ := outcome
  cases reply with
  | accept value rest => exact after_bind log (next value rest gauges) last
  | reject | broken => rfl

theorem recover_recover (outcome : Outcome α) (second third : Gauges → Outcome α) :
    (outcome.recover second).recover third = outcome.recover fun gauges => (second gauges).recover third := by
  obtain ⟨reply, gauges, log⟩ := outcome
  cases reply with
  | reject failure => exact after_recover log (second gauges) third
  | accept | broken => rfl

theorem bind_mapReply (convert : α → β) (outcome : Outcome α) (next : β → Input → Gauges → Outcome γ) :
    (outcome.mapReply (.map convert)).bind next = outcome.bind fun value => next (convert value) := by
  obtain ⟨reply, middle, log⟩ := outcome
  cases reply <;> rfl

theorem recover_of_reject {outcome : Outcome α} {failure : Failure} (rejected : outcome.reply = .reject failure)
    (other : Gauges → Outcome α) : outcome.recover other = (other outcome.gauges).after outcome.log := by
  simp [recover, rejected]

end Outcome

namespace Parser

variable {Ref : Type → Type} {α β γ : Type}

/-! ### Alternatives -/

section Alternatives

variable (follow : Follow Ref) (input : Input)

def tried : List (Parser Ref α) → Gauges → Outcome α
  | [], gauges => ⟨.broken .emptyChoice, gauges, []⟩
  | [parser], gauges => parser.rule.run follow input gauges
  | parser :: next :: others, gauges => (parser.rule.run follow input gauges).recover (tried (next :: others))

inductive Failing : List (Parser Ref α) → Gauges → Gauges → Log → Prop
  | none {gauges : Gauges} : Failing [] gauges gauges []
  | more {parser : Parser Ref α} {others : List (Parser Ref α)} {gauges after : Gauges} {log : Log} {failure : Failure}
    (rejected : (parser.rule.run follow input gauges).reply = .reject failure)
    (later : Failing others (parser.rule.run follow input gauges).gauges after log) :
    Failing (parser :: others) gauges after ((parser.rule.run follow input gauges).log ++ log)

/-- What alternatives come to at a place: the outcome of one of them there, behind what those before it said, which all
fail. It is one that succeeds or breaks, whatever stands after it, or else the last one. -/
inductive Chosen (gauges : Gauges) : List (Parser Ref α) → Outcome α → Prop
  | succeeds {before after : List (Parser Ref α)} {parser : Parser Ref α} {middle : Gauges} {log : Log} {value : α}
    {rest : Input} (failing : Failing follow input before gauges middle log)
    (accepted : (parser.rule.run follow input middle).reply = .accept value rest) :
    Chosen gauges (before ++ parser :: after) ((parser.rule.run follow input middle).after log)
  | breaks {before after : List (Parser Ref α)} {parser : Parser Ref α} {middle : Gauges} {log : Log} {fault : Fault}
    (failing : Failing follow input before gauges middle log)
    (broke : (parser.rule.run follow input middle).reply = .broken fault) :
    Chosen gauges (before ++ parser :: after) ((parser.rule.run follow input middle).after log)
  | fails {before : List (Parser Ref α)} {parser : Parser Ref α} {middle : Gauges} {log : Log} {failure : Failure}
    (failing : Failing follow input before gauges middle log)
    (rejected : (parser.rule.run follow input middle).reply = .reject failure) :
    Chosen gauges (before ++ [parser]) ((parser.rule.run follow input middle).after log)

variable {follow input}

theorem tried_cons (parser : Parser Ref α) {others : List (Parser Ref α)} (some : others ≠ []) (gauges : Gauges) :
    tried follow input (parser :: others) gauges =
      (parser.rule.run follow input gauges).recover (tried follow input others) := by
  obtain ⟨next, others, rfl⟩ := List.exists_cons_of_ne_nil some
  rfl

theorem tried_append {front back : List (Parser Ref α)} (some : front ≠ []) (more : back ≠ []) (gauges : Gauges) :
    tried follow input (front ++ back) gauges =
      (tried follow input front gauges).recover (tried follow input back) := by
  induction front generalizing gauges with
  | nil => exact absurd rfl some
  | cons parser front ih =>
    rw [List.cons_append, tried_cons parser (List.append_ne_nil_of_right_ne_nil front more)]
    cases front with
    | nil => rfl
    | cons next front =>
      rw [tried_cons parser (List.cons_ne_nil next front), Outcome.recover_recover]
      congr 1
      funext middle
      exact ih (List.cons_ne_nil next front) middle

/-- A choice is folded from the left, and comes to the same as the parsers tried from the left. -/
theorem run_choice (first : Parser Ref α) (others : List (Parser Ref α)) (gauges : Gauges) :
    (choice first others).rule.run follow input gauges = tried follow input (first :: others) gauges := by
  induction others generalizing first with
  | nil => rfl
  | cons next others ih =>
    change (choice (first.orElse next) others).rule.run follow input gauges = _
    rw [ih]
    cases others with
    | nil => rfl
    | cons third others => exact Outcome.recover_recover _ _ _

theorem Chosen.behind {parser : Parser Ref α} {others : List (Parser Ref α)} {gauges : Gauges} {failure : Failure}
    {outcome : Outcome α} (rejected : (parser.rule.run follow input gauges).reply = .reject failure)
    (chosen : Chosen follow input (parser.rule.run follow input gauges).gauges others outcome) :
    Chosen follow input gauges (parser :: others) (outcome.after (parser.rule.run follow input gauges).log) := by
  cases chosen with
  | succeeds failing accepted =>
    rw [Outcome.after_after]
    exact .succeeds (.more rejected failing) accepted
  | breaks failing broke =>
    rw [Outcome.after_after]
    exact .breaks (.more rejected failing) broke
  | fails failing last =>
    rw [Outcome.after_after]
    exact .fails (.more rejected failing) last

/-- What comes after a parser that does not fail does not matter. -/
theorem Chosen.first {parser : Parser Ref α} (after : List (Parser Ref α)) {gauges : Gauges}
    (settled : ∀ failure, (parser.rule.run follow input gauges).reply ≠ .reject failure) :
    Chosen follow input gauges (parser :: after) (parser.rule.run follow input gauges) := by
  have nothing : Failing follow input ([] : List (Parser Ref α)) gauges gauges [] := .none
  cases replied : (parser.rule.run follow input gauges).reply with
  | accept value rest => exact .succeeds nothing replied
  | broken fault => exact .breaks nothing replied
  | reject failure => exact absurd replied (settled failure)

theorem tried_of_ne_reject {parser : Parser Ref α} (after : List (Parser Ref α)) {gauges : Gauges}
    (settled : ∀ failure, (parser.rule.run follow input gauges).reply ≠ .reject failure) :
    tried follow input (parser :: after) gauges = parser.rule.run follow input gauges := by
  cases after with
  | nil => rfl
  | cons next after => rw [tried_cons parser (List.cons_ne_nil next after), Outcome.recover_of_ne_reject settled]

theorem chosen_tried {parsers : List (Parser Ref α)} (some : parsers ≠ []) (gauges : Gauges) :
    Chosen follow input gauges parsers (tried follow input parsers gauges) := by
  induction parsers generalizing gauges with
  | nil => exact absurd rfl some
  | cons parser others ih =>
    cases replied : (parser.rule.run follow input gauges).reply with
    | reject failure =>
      cases others with
      | nil =>
        have nothing : Failing follow input ([] : List (Parser Ref α)) gauges gauges [] := .none
        exact .fails nothing replied
      | cons next others =>
        rw [tried_cons parser (List.cons_ne_nil next others), Outcome.recover_of_reject replied]
        exact (ih (List.cons_ne_nil next others) _).behind replied
    | accept | broken =>
      have settled : ∀ failure, (parser.rule.run follow input gauges).reply ≠ .reject failure := by simp [replied]
      rw [tried_of_ne_reject others settled]
      exact .first others settled

theorem Failing.tried {before parsers : List (Parser Ref α)} {gauges middle : Gauges} {log : Log}
    (failing : Failing follow input before gauges middle log) (some : parsers ≠ []) :
    tried follow input (before ++ parsers) gauges = (tried follow input parsers middle).after log := by
  induction failing with
  | none => rfl
  | more rejected _ ih =>
    rw [List.cons_append, tried_cons _ (List.append_ne_nil_of_right_ne_nil _ some),
      Outcome.recover_of_reject rejected, ih, Outcome.after_after]

theorem Chosen.tried {parsers : List (Parser Ref α)} {gauges : Gauges} {outcome : Outcome α}
    (chosen : Chosen follow input gauges parsers outcome) : tried follow input parsers gauges = outcome := by
  cases chosen with
  | @succeeds before after parser middle log value rest failing accepted =>
    rw [failing.tried (List.cons_ne_nil parser after), tried_of_ne_reject after (by simp [accepted])]
  | @breaks before after parser middle log fault failing broke =>
    rw [failing.tried (List.cons_ne_nil parser after), tried_of_ne_reject after (by simp [broke])]
  | @fails before parser middle log failure failing rejected =>
    exact failing.tried (List.cons_ne_nil parser [])

/-- A block that is a choice of its own is tried as its parsers are. -/
theorem tried_block (front : List (Parser Ref α)) (head : Parser Ref α) (block back : List (Parser Ref α))
    (gauges : Gauges) : tried follow input (front ++ (head :: block ++ back)) gauges =
      tried follow input (front ++ choice head block :: back) gauges := by
  have inside : ∀ gauges, tried follow input (head :: block ++ back) gauges =
      tried follow input (choice head block :: back) gauges := by
    intro gauges
    cases back with
    | nil => rw [List.append_nil, ← run_choice, tried]
    | cons next back =>
      rw [tried_append (List.cons_ne_nil head block) (List.cons_ne_nil next back),
        tried_cons _ (List.cons_ne_nil next back), run_choice]
  cases front with
  | nil => exact inside gauges
  | cons first front =>
    have some : head :: block ++ back ≠ [] := List.cons_ne_nil head (block ++ back)
    rw [tried_append (List.cons_ne_nil first front) some,
      tried_append (List.cons_ne_nil first front) (List.cons_ne_nil (choice head block) back)]
    congr 1
    funext middle
    exact inside middle

end Alternatives

def choiceOf (parsers : List (Parser Ref α)) (some : parsers ≠ []) : Parser Ref α :=
  choice (parsers.head some) parsers.tail

/-! ### Sequences -/

section Sequences

variable (follow : Follow Ref) (input : Input) (gauges : Gauges)

theorem run_andThen (first : Parser Ref α) (second : Parser Ref β) :
    (first.andThen second).rule.run follow input gauges =
      (first.rule.run follow input gauges).bind fun value rest middle =>
        (second.rule.run follow rest middle).mapReply (.map (Prod.mk value)) := by
  change (first.rule.run follow input gauges).bind
    (fun value rest middle => (second.rule.map (Prod.mk value)).run follow rest middle) = _
  simp only [run_map]

theorem run_sequenceFrom (parsers : List (Parser Ref α)) (taken : List α) :
    (sequenceFrom taken parsers).run follow input gauges =
      ((sequence parsers).rule.run follow input gauges).mapReply (.map (taken.reverse ++ ·)) := by
  induction parsers generalizing taken input gauges with
  | nil => simp [sequenceFrom, sequence, Rule.run, Outcome.mapReply, Reply.map]
  | cons parser parsers ih =>
    change (parser.rule.run follow input gauges).bind
      (fun value rest middle => (sequenceFrom (value :: taken) parsers).run follow rest middle) =
        ((parser.rule.run follow input gauges).bind
          fun value rest middle => (sequenceFrom [value] parsers).run follow rest middle).mapReply _
    simp only [ih, Outcome.mapReply_bind, Outcome.mapReply_map_map]
    simp [Function.comp_def]

theorem run_sequence_cons (parser : Parser Ref α) (parsers : List (Parser Ref α)) :
    (sequence (parser :: parsers)).rule.run follow input gauges =
      (parser.rule.run follow input gauges).bind fun value rest middle =>
        ((sequence parsers).rule.run follow rest middle).mapReply (.map (value :: ·)) := by
  change (parser.rule.run follow input gauges).bind
    (fun value rest middle => (sequenceFrom [value] parsers).run follow rest middle) = _
  simp only [run_sequenceFrom, List.reverse_singleton, List.singleton_append]

theorem run_sequence_append (front back : List (Parser Ref α)) :
    (sequence (front ++ back)).rule.run follow input gauges =
      (((sequence front).andThen (sequence back)).rule.run follow input gauges).mapReply
        (.map fun values => values.1 ++ values.2) := by
  induction front generalizing input gauges with
  | nil =>
    rw [run_andThen, Outcome.mapReply_bind]
    simp only [Outcome.mapReply_map_map]
    exact (Outcome.mapReply_map_id _).symm
  | cons parser front ih =>
    simp only [List.cons_append, run_sequence_cons, run_andThen, ih, Outcome.mapReply_bind, Outcome.mapReply_map_map,
      Outcome.bind_bind, Outcome.bind_mapReply]
    simp only [Function.comp_def, List.cons_append]

theorem run_andThen_assoc (first : Parser Ref α) (second : Parser Ref β) (third : Parser Ref γ) :
    ((first.andThen second).andThen third).rule.run follow input gauges =
      ((first.andThen (second.andThen third)).rule.run follow input gauges).mapReply
        (.map fun values => ((values.1, values.2.1), values.2.2)) := by
  simp only [run_andThen, Outcome.bind_bind, Outcome.bind_mapReply, Outcome.mapReply_bind, Outcome.mapReply_map_map]
  rfl

theorem run_bind_assoc (parser : Parser Ref α) (next : α → Parser Ref β) (last : β → Parser Ref γ) :
    ((parser.bind next).bind last).rule.run follow input gauges =
      (parser.bind fun value => (next value).bind last).rule.run follow input gauges :=
  Outcome.bind_bind _ _ _

end Sequences

/-- A choice comes to what the first alternative comes to that does not fail, run at the same place, or to what the
last one comes to; and nothing is different if a block of the alternatives is a choice of its own. A sequence is the
same as its first part and then the rest, for every cut in two, and parsers one after the other are the same however
they are paired, be they given or found from the values before. All of it holds of values, failures and faults, of what
is left of the input, of the gauges and of the log. -/
theorem grouping_immaterial (follow : Follow Ref) (input : Input) (gauges : Gauges) :
    (∀ (first : Parser Ref α) (others : List (Parser Ref α)) (outcome : Outcome α),
      (choice first others).rule.run follow input gauges = outcome ↔
        Chosen follow input gauges (first :: others) outcome) ∧
    (∀ (front : List (Parser Ref α)) (head : Parser Ref α) (block back : List (Parser Ref α)),
      (choiceOf (front ++ (head :: block ++ back)) (by simp)).rule.run follow input gauges =
        (choiceOf (front ++ choice head block :: back) (by simp)).rule.run follow input gauges) ∧
    (∀ front back : List (Parser Ref α), (sequence (front ++ back)).rule.run follow input gauges =
      (((sequence front).andThen (sequence back)).rule.run follow input gauges).mapReply
        (.map fun values => values.1 ++ values.2)) ∧
    (∀ (first : Parser Ref α) (second : Parser Ref β) (third : Parser Ref γ),
      ((first.andThen second).andThen third).rule.run follow input gauges =
        ((first.andThen (second.andThen third)).rule.run follow input gauges).mapReply
          (.map fun values => ((values.1, values.2.1), values.2.2))) ∧
    ∀ (parser : Parser Ref α) (next : α → Parser Ref β) (last : β → Parser Ref γ),
      ((parser.bind next).bind last).rule.run follow input gauges =
        (parser.bind fun value => (next value).bind last).rule.run follow input gauges := by
  refine ⟨fun first others outcome => ?_, fun front head block back => ?_, run_sequence_append follow input gauges,
    run_andThen_assoc follow input gauges, run_bind_assoc follow input gauges⟩
  · rw [run_choice]
    exact ⟨fun same => same ▸ chosen_tried (List.cons_ne_nil first others) gauges, Chosen.tried⟩
  · rw [choiceOf, choiceOf, run_choice, run_choice, List.cons_head_tail, List.cons_head_tail]
    exact tried_block front head block back gauges

end Parser

end Caret
