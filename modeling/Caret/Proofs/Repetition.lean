import Caret.Parser.Characters
import Caret.Proofs.Agreement

/-!
Repetitions told by recursion. A repetition is a loop that keeps the values it has taken and a bound on its rounds. What
it comes to is told without either: by one application, and by what the repetition comes to from the place where that
one ends. Where every application that succeeds moves forward, the tokens ahead bound the number of applications, so the
bound is never reached. Separated values are such a repetition too, in which a round takes a separator and a value.
-/

namespace Caret

/-! ### What came before -/

namespace Outcome

variable {α : Type}

/-- The outcome of a repetition behind values that were taken and a log that was written before it. -/
def behind (taken : List α) (log : Log) (outcome : Outcome (List α)) : Outcome (List α) :=
  (outcome.mapReply (.map (taken ++ ·))).after log

theorem behind_behind (outer inner : List α) (first second : Log) (outcome : Outcome (List α)) :
    (outcome.behind inner second).behind outer first = outcome.behind (outer ++ inner) (first ++ second) := by
  obtain ⟨reply, gauges, log⟩ := outcome
  cases reply <;> simp [behind, mapReply, after, Reply.map]

theorem behind_ne_reject {outcome : Outcome (List α)} (settled : ∀ failure, outcome.reply ≠ .reject failure)
    (taken : List α) (log : Log) (failure : Failure) : (outcome.behind taken log).reply ≠ .reject failure := by
  obtain ⟨reply, gauges, more⟩ := outcome
  cases reply with
  | reject other => exact absurd rfl (settled other)
  | accept | broken => exact nofun

section Bind

variable {β : Type} {outcome : Outcome α} {next : α → Input → Gauges → Outcome β}

theorem bind_eq_accept {value : β} {rest : Input} :
    (outcome.bind next).reply = .accept value rest ↔
      ∃ first place, outcome.reply = .accept first place ∧
        (next first place outcome.gauges).reply = .accept value rest := by
  unfold bind
  cases outcome.reply <;> simp [after, and_assoc]

theorem bind_eq_reject {failure : Failure} :
    (outcome.bind next).reply = .reject failure ↔
      outcome.reply = .reject failure ∨ ∃ first place, outcome.reply = .accept first place ∧
        (next first place outcome.gauges).reply = .reject failure := by
  unfold bind
  cases outcome.reply <;> simp [after, and_assoc]

end Bind

theorem mapReply_bind {β γ : Type} (convert : β → γ) (outcome : Outcome α) (next : α → Input → Gauges → Outcome β) :
    (outcome.bind next).mapReply (.map convert) =
      outcome.bind fun value rest gauges => (next value rest gauges).mapReply (.map convert) := by
  unfold bind
  split <;> rfl

theorem mapReply_map_map {β γ : Type} (inner : α → β) (outer : β → γ) (outcome : Outcome α) :
    (outcome.mapReply (.map inner)).mapReply (.map outer) = outcome.mapReply (.map (outer ∘ inner)) := by
  obtain ⟨reply, gauges, log⟩ := outcome
  cases reply <;> rfl

theorem mapReply_map_id (outcome : Outcome α) : outcome.mapReply (.map id) = outcome := by
  obtain ⟨reply, gauges, log⟩ := outcome
  cases reply <;> rfl

/-- Only a failure is recovered from. -/
theorem recover_of_ne_reject {outcome : Outcome α} (settled : ∀ failure, outcome.reply ≠ .reject failure)
    (other : Gauges → Outcome α) : outcome.recover other = outcome := by
  unfold recover
  split
  · next failure rejected => exact absurd rejected (settled failure)
  · rfl

end Outcome

/-! ### The loop -/

section Loop

variable {α : Type} (label : String) (step : Input → Gauges → Outcome α)

def Forward : Prop :=
  ∀ input gauges value rest, (step input gauges).reply = .accept value rest → input.Leads rest

namespace Rule

def repeated (count : Nat) (input : Input) (gauges : Gauges) : Outcome (List α) :=
  (repeatFrom label step count [] [] input gauges).recover fun gauges => ⟨.accept [] input, gauges, []⟩

variable {label step} {count : Nat} {input rest : Input} {gauges : Gauges} {value : α} {failure : Failure}
  {fault : Fault}

theorem repeated_ne_reject (failure : Failure) : (repeated label step count input gauges).reply ≠ .reject failure := by
  unfold repeated Outcome.recover
  split
  · exact nofun
  · next unrejected => exact unrejected failure

theorem recover_behind_repeated (taken : List α) (log : Log) (other : Gauges → Outcome (List α)) :
    ((repeated label step count input gauges).behind taken log).recover other =
      (repeated label step count input gauges).behind taken log :=
  Outcome.recover_of_ne_reject (Outcome.behind_ne_reject repeated_ne_reject taken log) other

/-- A loop that goes on with some values comes to what it comes to from its beginning, behind those values. -/
theorem repeatFrom_eq {taken : List α} (some : taken ≠ []) (log : Log) :
    repeatFrom label step count taken log input gauges =
      (repeated label step count input gauges).behind taken.reverse log := by
  induction count generalizing taken log input gauges with
  | zero => simp [repeatFrom, repeated, Outcome.recover, Outcome.behind, Outcome.mapReply, Outcome.after, Reply.map]
  | succ count ih =>
    have fresh : taken.isEmpty = false := by simpa using some
    unfold repeated
    rw [repeatFrom, repeatFrom]
    cases replied : (step input gauges).reply with
    | accept value rest =>
      by_cases still : rest.position = input.position
      · simp [still, Outcome.recover, Outcome.behind, Outcome.mapReply, Outcome.after, Reply.map]
      · simp only [if_neg still]
        rw [ih (List.cons_ne_nil value taken), ih (List.cons_ne_nil value []), recover_behind_repeated,
          Outcome.behind_behind, List.nil_append, List.reverse_cons, List.reverse_singleton]
    | reject failure => simp [fresh, Outcome.recover, Outcome.behind, Outcome.mapReply, Outcome.after, Reply.map]
    | broken fault => simp [Outcome.recover, Outcome.behind, Outcome.mapReply, Outcome.after, Reply.map]

theorem repeated_of_reject (rejected : (step input gauges).reply = .reject failure) :
    repeated label step (count + 1) input gauges =
      ⟨.accept [] input, (step input gauges).gauges, (step input gauges).log⟩ := by
  simp [repeated, repeatFrom, rejected, Outcome.recover, Outcome.after]

theorem repeated_of_broken (broke : (step input gauges).reply = .broken fault) :
    repeated label step (count + 1) input gauges =
      ⟨.broken fault, (step input gauges).gauges, (step input gauges).log⟩ := by
  simp [repeated, repeatFrom, broke, Outcome.recover]

theorem repeated_of_stalled (accepted : (step input gauges).reply = .accept value rest)
    (still : rest.position = input.position) :
    repeated label step (count + 1) input gauges = ⟨.accept [value] rest, (step input gauges).gauges,
      (step input gauges).log ++ [.stalled label input.position]⟩ := by
  simp [repeated, repeatFrom, accepted, still, Outcome.recover]

theorem repeated_of_moved (accepted : (step input gauges).reply = .accept value rest)
    (moved : rest.position ≠ input.position) :
    repeated label step (count + 1) input gauges =
      (repeated label step count rest (step input gauges).gauges).behind [value] (step input gauges).log := by
  have onward : repeatFrom label step (count + 1) [] [] input gauges =
      repeatFrom label step count [value] (step input gauges).log rest (step input gauges).gauges := by
    rw [repeatFrom]
    simp only [accepted, if_neg moved, List.nil_append]
  calc
    repeated label step (count + 1) input gauges
    _ = (repeatFrom label step (count + 1) [] [] input gauges).recover
        fun gauges => ⟨.accept [] input, gauges, []⟩ := rfl
    _ = (repeated label step count rest (step input gauges).gauges).behind [value] (step input gauges).log := by
      rw [onward, repeatFrom_eq (List.cons_ne_nil value []), recover_behind_repeated, List.reverse_singleton]

/-- What is left is where an application ended that gave the last value, or where nothing was taken. -/
theorem last_of_repeated {values : List α}
    (accepted : (repeated label step count input gauges).reply = .accept values rest) :
    values = [] ∧ rest = input ∨
      ∃ place middle last, (Forward step → input.Leads place) ∧ (step place middle).reply = .accept last rest ∧
        values.getLast? = some last := by
  induction count generalizing input gauges values with
  | zero =>
    cases accepted
    exact .inl ⟨rfl, rfl⟩
  | succ count ih =>
    cases replied : (step input gauges).reply with
    | accept value next =>
      by_cases still : next.position = input.position
      · rw [repeated_of_stalled replied still] at accepted
        cases accepted
        exact .inr ⟨input, gauges, value, fun _ => .here input, replied, rfl⟩
      · rw [repeated_of_moved replied still] at accepted
        generalize further : repeated label step count next (step input gauges).gauges = outcome at accepted
        obtain ⟨reply, after, log⟩ := outcome
        cases reply with
        | accept others last =>
          cases accepted
          rcases ih (congrArg Outcome.reply further) with ⟨rfl, rfl⟩ | ⟨place, middle, last, leads, ended, found⟩
          · exact .inr ⟨input, gauges, value, fun _ => .here input, replied, rfl⟩
          · exact .inr ⟨place, middle, last, fun forward => (forward _ _ _ _ replied).trans (leads forward), ended,
              by simp [found, List.getLast?_cons]⟩
        | reject | broken => cases accepted
    | reject failure =>
      rw [repeated_of_reject replied] at accepted
      cases accepted
      exact .inl ⟨rfl, rfl⟩
    | broken fault =>
      rw [repeated_of_broken replied] at accepted
      cases accepted

end Rule

/-! ### Applications -/

/-- From a place a step is applied so many times, as long as it succeeds and moves: the values it gives, and what is
said of a value without a move, are the outcome. -/
inductive Repeats : Nat → Input → Gauges → Outcome (List α) → Prop
  | rejected {input : Input} {gauges : Gauges} {failure : Failure}
    (replied : (step input gauges).reply = .reject failure) :
    Repeats 1 input gauges ⟨.accept [] input, (step input gauges).gauges, (step input gauges).log⟩
  | broken {input : Input} {gauges : Gauges} {fault : Fault} (replied : (step input gauges).reply = .broken fault) :
    Repeats 1 input gauges ⟨.broken fault, (step input gauges).gauges, (step input gauges).log⟩
  | stalled {input rest : Input} {gauges : Gauges} {value : α}
    (replied : (step input gauges).reply = .accept value rest) (still : rest.position = input.position) :
    Repeats 1 input gauges ⟨.accept [value] rest, (step input gauges).gauges,
      (step input gauges).log ++ [.stalled label input.position]⟩
  | moved {count : Nat} {input rest : Input} {gauges : Gauges} {value : α} {outcome : Outcome (List α)}
    (replied : (step input gauges).reply = .accept value rest) (moved : rest.position ≠ input.position)
    (more : Repeats count rest (step input gauges).gauges outcome) :
    Repeats (count + 1) input gauges (outcome.behind [value] (step input gauges).log)

variable {label step} {count fuel : Nat} {input : Input} {gauges : Gauges} {outcome : Outcome (List α)}

/-- The loop comes to this outcome with any bound from the number of applications on. -/
theorem Repeats.repeated (repeats : Repeats label step count input gauges outcome) (enough : count ≤ fuel) :
    Rule.repeated label step fuel input gauges = outcome := by
  induction repeats generalizing fuel with
  | rejected replied =>
    obtain ⟨fuel, rfl⟩ := Nat.exists_eq_add_of_le' enough
    exact Rule.repeated_of_reject replied
  | broken replied =>
    obtain ⟨fuel, rfl⟩ := Nat.exists_eq_add_of_le' enough
    exact Rule.repeated_of_broken replied
  | stalled replied still =>
    obtain ⟨fuel, rfl⟩ := Nat.exists_eq_add_of_le' enough
    exact Rule.repeated_of_stalled replied still
  | moved replied moved more ih =>
    obtain ⟨fuel, rfl⟩ := Nat.exists_eq_add_of_le' (Nat.le_trans (Nat.le_add_left 1 _) enough)
    rw [Rule.repeated_of_moved replied moved, ih (Nat.le_of_succ_le_succ enough)]

/-- By induction on the tokens ahead, of which every move takes some. -/
theorem Forward.exists_repeats (forward : Forward step) (label : String) (input : Input) (gauges : Gauges) :
    ∃ count ≤ input.ahead.length + 1, ∃ outcome, Repeats label step count input gauges outcome := by
  induction size : input.ahead.length using Nat.strongRecOn generalizing input gauges with
  | ind size ih =>
    subst size
    cases replied : (step input gauges).reply with
    | accept value rest =>
      have leads := forward input gauges value rest replied
      by_cases still : rest.position = input.position
      · exact ⟨1, Nat.le_add_left 1 _, _, .stalled replied still⟩
      · have shorter : rest.ahead.length < input.ahead.length :=
          Nat.lt_of_le_of_ne leads.length_le fun same => still (leads.position_eq_iff.mpr same)
        obtain ⟨count, few, outcome, more⟩ := ih _ shorter rest (step input gauges).gauges rfl
        exact ⟨count + 1, by omega, _, .moved replied still more⟩
    | reject failure => exact ⟨1, Nat.le_add_left 1 _, _, .rejected replied⟩
    | broken fault => exact ⟨1, Nat.le_add_left 1 _, _, .broken replied⟩

/-- From one place there is one run of the loop. -/
theorem Repeats.unique {other : Outcome (List α)} (repeats : Repeats label step count input gauges outcome)
    (too : Repeats label step fuel input gauges other) : fuel = count ∧ other = outcome := by
  induction repeats generalizing fuel other with
  | rejected replied =>
    cases too with
    | rejected => exact ⟨rfl, rfl⟩
    | broken replied' | stalled replied' | moved replied' => cases replied.symm.trans replied'
  | broken replied =>
    cases too with
    | broken replied' =>
      cases replied.symm.trans replied'
      exact ⟨rfl, rfl⟩
    | rejected replied' | stalled replied' | moved replied' => cases replied.symm.trans replied'
  | stalled replied still =>
    cases too with
    | stalled replied' =>
      cases replied.symm.trans replied'
      exact ⟨rfl, rfl⟩
    | rejected replied' | broken replied' => cases replied.symm.trans replied'
    | moved replied' moved =>
      cases replied.symm.trans replied'
      exact absurd still moved
  | moved replied moved more ih =>
    cases too with
    | moved replied' _ more' =>
      cases replied.symm.trans replied'
      obtain ⟨rfl, rfl⟩ := ih more'
      exact ⟨rfl, rfl⟩
    | rejected replied' | broken replied' => cases replied.symm.trans replied'
    | stalled replied' still =>
      cases replied.symm.trans replied'
      exact absurd still moved

/-- A repetition comes to values, or one of its applications breaks. -/
theorem Repeats.accepts_or_breaks (forward : Forward step) (repeats : Repeats label step count input gauges outcome) :
    (∃ values rest, outcome.reply = .accept values rest ∧ input.Leads rest) ∨
      ∃ fault place middle, outcome.reply = .broken fault ∧ input.Leads place ∧
        (step place middle).reply = .broken fault := by
  induction repeats with
  | rejected => exact .inl ⟨_, _, rfl, .here _⟩
  | @broken input gauges fault replied => exact .inr ⟨fault, input, gauges, rfl, .here input, replied⟩
  | stalled replied => exact .inl ⟨_, _, rfl, forward _ _ _ _ replied⟩
  | @moved _ _ _ _ _ outcome replied _ _ ih =>
    have leads := forward _ _ _ _ replied
    obtain ⟨reply, after, log⟩ := outcome
    rcases ih with ⟨values, last, rfl, further⟩ | ⟨fault, place, middle, rfl, further, broke⟩
    · exact .inl ⟨_, _, rfl, leads.trans further⟩
    · exact .inr ⟨_, _, _, rfl, leads.trans further, broke⟩

/-- What a repetition comes to at a place, by one application of its step there and by the repetition itself at the
place where that application ends. -/
structure Unfolds (label : String) (step : Input → Gauges → Outcome α) (many : Input → Gauges → Outcome (List α))
    (input : Input) (gauges : Gauges) : Prop where
  /-- There is one run of the loop, with one application more than there are tokens ahead at most. -/
  ends : ∃ count ≤ input.ahead.length + 1, ∀ applications outcome,
    Repeats label step applications input gauges outcome ↔ applications = count ∧ outcome = many input gauges
  /-- It never fails: it comes to values, unless an application breaks. -/
  settles : (∃ values rest, (many input gauges).reply = .accept values rest ∧ input.Leads rest) ∨
    ∃ fault place middle, (many input gauges).reply = .broken fault ∧ input.Leads place ∧
      (step place middle).reply = .broken fault
  rejected : ∀ failure, (step input gauges).reply = .reject failure →
    many input gauges = ⟨.accept [] input, (step input gauges).gauges, (step input gauges).log⟩
  broken : ∀ fault, (step input gauges).reply = .broken fault →
    many input gauges = ⟨.broken fault, (step input gauges).gauges, (step input gauges).log⟩
  stalled : ∀ value rest, (step input gauges).reply = .accept value rest → rest.position = input.position →
    rest = input ∧ many input gauges = ⟨.accept [value] input, (step input gauges).gauges,
      (step input gauges).log ++ [.stalled label input.position]⟩
  moved : ∀ value rest, (step input gauges).reply = .accept value rest → rest.position ≠ input.position →
    many input gauges = (many rest (step input gauges).gauges).behind [value] (step input gauges).log

theorem Forward.unfolds (forward : Forward step) (label : String) (input : Input) (gauges : Gauges) :
    Unfolds label step (fun input => Rule.repeated label step (input.source.size + 1) input) input gauges := by
  obtain ⟨count, few, outcome, repeats⟩ := forward.exists_repeats label input gauges
  have enough : count ≤ input.source.size + 1 := Nat.le_trans few (Nat.succ_le_succ input.length_ahead_le)
  have same : Rule.repeated label step (input.source.size + 1) input gauges = outcome := repeats.repeated enough
  exact {
    ends := ⟨count, few, fun applications other =>
      ⟨fun too => same ▸ repeats.unique too, fun ⟨as, is⟩ => by rw [as, is, same]; exact repeats⟩⟩
    settles := by
      rw [same]
      exact repeats.accepts_or_breaks forward
    rejected := fun failure replied => Rule.repeated_of_reject replied
    broken := fun fault replied => Rule.repeated_of_broken replied
    stalled := fun value rest replied still => by
      have leads := forward input gauges value rest replied
      have stays : rest = input :=
        leads.unique (.here input) (leads.ahead_suffix.eq_of_length (leads.position_eq_iff.mp still))
      exact ⟨stays, (Rule.repeated_of_stalled replied still).trans (by rw [stays])⟩
    moved := fun value rest replied moved => by
      have leads := forward input gauges value rest replied
      obtain ⟨fewer, short, other, more⟩ := forward.exists_repeats label rest (step input gauges).gauges
      have enough' : fewer ≤ rest.source.size + 1 := Nat.le_trans short (Nat.succ_le_succ rest.length_ahead_le)
      have next := repeats.unique (.moved replied moved more)
      rw [same, ← next.2]
      exact congrArg (Outcome.behind [value] (step input gauges).log) (more.repeated enough').symm
  }

end Loop

/-! ### Repeated parsers -/

namespace Parser

variable {Ref : Type → Type} {α β : Type} (follow : Follow Ref) (parser : Parser Ref α) (separator : Parser Ref β)
  (input : Input) (gauges : Gauges)

theorem run_many : parser.many.rule.run follow input gauges =
    Rule.repeated parser.label (parser.rule.run follow) (input.source.size + 1) input gauges := rfl

theorem run_many1_of_reject {failure : Failure}
    (rejected : (parser.rule.run follow input gauges).reply = .reject failure) :
    parser.many1.rule.run follow input gauges = ⟨.reject failure, (parser.rule.run follow input gauges).gauges,
      (parser.rule.run follow input gauges).log⟩ := by
  change Rule.repeatFrom parser.label (parser.rule.run follow) (input.source.size + 1) [] [] input gauges = _
  simp [Rule.repeatFrom, rejected]

theorem run_many1_of_ne_reject
    (unrejected : ∀ failure, (parser.rule.run follow input gauges).reply ≠ .reject failure) :
    parser.many1.rule.run follow input gauges = parser.many.rule.run follow input gauges := by
  change Rule.repeatFrom parser.label (parser.rule.run follow) (input.source.size + 1) [] [] input gauges =
    (Rule.repeatFrom parser.label (parser.rule.run follow) (input.source.size + 1) [] [] input gauges).recover _
  rw [Outcome.recover_of_ne_reject]
  intro failure
  rw [Rule.repeatFrom]
  cases replied : (parser.rule.run follow input gauges).reply with
  | accept value rest =>
    by_cases still : rest.position = input.position
    · simp [still]
    · simp only [if_neg still]
      rw [Rule.repeatFrom_eq (List.cons_ne_nil value [])]
      exact Outcome.behind_ne_reject Rule.repeated_ne_reject _ _ failure
  | reject failure => exact absurd replied (unrejected failure)
  | broken fault => simp

theorem run_map (rule : Rule Ref α) (convert : α → β) : (rule.map convert).run follow input gauges =
    (rule.run follow input gauges).mapReply (.map convert) := by
  change (rule.run follow input gauges).bind (fun value rest gauges => ⟨.accept (convert value) rest, gauges, []⟩) = _
  obtain ⟨reply, after, log⟩ := rule.run follow input gauges
  cases reply <;> simp [Outcome.bind, Outcome.mapReply, Outcome.after, Reply.map]

theorem run_keepRight : (separator.keepRight parser).rule.run follow input gauges =
    (separator.rule.run follow input gauges).bind fun _ rest middle => parser.rule.run follow rest middle := by
  calc
    (separator.keepRight parser).rule.run follow input gauges
    _ = ((separator.rule.run follow input gauges).bind fun value rest middle =>
          (parser.rule.map fun other => (value, other)).run follow rest middle).mapReply (.map Prod.snd) :=
      run_map follow input gauges _ Prod.snd
    _ = (separator.rule.run follow input gauges).bind fun value rest middle =>
          (parser.rule.run follow rest middle).mapReply (.map (Prod.snd ∘ fun other => (value, other))) := by
      simp only [run_map, Outcome.mapReply_bind, Outcome.mapReply_map_map]
    _ = (separator.rule.run follow input gauges).bind fun _ rest middle => parser.rule.run follow rest middle := by
      congr 1
      funext value rest middle
      exact Outcome.mapReply_map_id _

/-- A value and the rounds after it, in which the value is put in front of theirs. -/
theorem run_sepBy1 : (parser.sepBy1 separator).rule.run follow input gauges =
    (parser.rule.run follow input gauges).bind fun head rest middle =>
      ((separator.keepRight parser).many.rule.run follow rest middle).mapReply (.map (head :: ·)) := by
  change (parser.rule.run follow input gauges).bind (fun head rest middle =>
    ((separator.keepRight parser).many.rule.map (head :: ·)).run follow rest middle) = _
  simp only [run_map]

theorem run_sepBy_of_reject {failure : Failure}
    (rejected : (parser.rule.run follow input gauges).reply = .reject failure) :
    (parser.sepBy separator).rule.run follow input gauges =
      ⟨.accept [] input, (parser.rule.run follow input gauges).gauges, (parser.rule.run follow input gauges).log⟩ := by
  change ((parser.sepBy1 separator).rule.run follow input gauges).recover
    (fun gauges => ⟨.accept [] input, gauges, []⟩) = _
  simp [run_sepBy1, Outcome.bind, rejected, Outcome.recover, Outcome.after]

theorem forward_keepRight (forward : Forward (parser.rule.run follow))
    (forward' : Forward (separator.rule.run follow)) :
    Forward ((separator.keepRight parser).rule.run follow) := by
  intro input gauges value rest accepted
  rw [run_keepRight] at accepted
  obtain ⟨other, place, taken, accepted⟩ := Outcome.bind_eq_accept.mp accepted
  exact (forward' _ _ _ _ taken).trans (forward _ _ _ _ accepted)

/-- What separated values leave is where one of the values ended, the last one. -/
theorem last_of_sepBy1 (forward : Forward (parser.rule.run follow)) {values : List α} {rest : Input}
    (accepted : ((parser.sepBy1 separator).rule.run follow input gauges).reply = .accept values rest) :
    ∃ place middle last, (Forward (separator.rule.run follow) → input.Leads place) ∧
      (parser.rule.run follow place middle).reply = .accept last rest ∧ values.getLast? = some last := by
  rw [run_sepBy1] at accepted
  obtain ⟨head, next, first, accepted⟩ := Outcome.bind_eq_accept.mp accepted
  rw [run_many] at accepted
  generalize middle : (parser.rule.run follow input gauges).gauges = between at accepted
  cases further : (Rule.repeated (separator.keepRight parser).label ((separator.keepRight parser).rule.run follow)
      (next.source.size + 1) next between).reply with
  | accept others place =>
    simp only [Outcome.mapReply, further] at accepted
    cases accepted
    rcases Rule.last_of_repeated further with ⟨rfl, rfl⟩ | ⟨place, between, last, leads, ended, found⟩
    · exact ⟨input, gauges, head, fun _ => .here input, first, rfl⟩
    · rw [run_keepRight] at ended
      obtain ⟨other, after, taken, ended⟩ := Outcome.bind_eq_accept.mp ended
      refine ⟨after, _, last, fun forward' => ?_, ended, by simp [List.getLast?_cons, found]⟩
      have reached := leads (forward_keepRight follow parser separator forward forward')
      exact ((forward _ _ _ _ first).trans reached).trans (forward' _ _ _ _ taken)
  | reject | broken => simp [Outcome.mapReply, further, Reply.map] at accepted

theorem run_sepBy1_reject {failure : Failure} :
    ((parser.sepBy1 separator).rule.run follow input gauges).reply = .reject failure ↔
      (parser.rule.run follow input gauges).reply = .reject failure := by
  rw [run_sepBy1, Outcome.bind_eq_reject]
  refine or_iff_left ?_
  rintro ⟨head, next, -, rejected⟩
  rw [run_many] at rejected
  exact Outcome.behind_ne_reject Rule.repeated_ne_reject [head] [] failure rejected

structure Separates : Prop where
  /-- A value, and the rounds of a separator and a value each. -/
  rounds : (parser.sepBy1 separator).rule.run follow input gauges =
    (parser.rule.run follow input gauges).bind fun head rest middle =>
      ((separator.keepRight parser).many.rule.run follow rest middle).mapReply (.map (head :: ·))
  /-- The loop, with the first value taken already. -/
  looped : ∀ head rest, (parser.rule.run follow input gauges).reply = .accept head rest →
    (parser.sepBy1 separator).rule.run follow input gauges =
      Rule.repeatFrom (separator.keepRight parser).label ((separator.keepRight parser).rule.run follow)
        (input.source.size + 1) [head] (parser.rule.run follow input gauges).log rest
        (parser.rule.run follow input gauges).gauges
  rejected : ∀ failure, ((parser.sepBy1 separator).rule.run follow input gauges).reply = .reject failure ↔
    (parser.rule.run follow input gauges).reply = .reject failure
  nothing : ∀ failure, (parser.rule.run follow input gauges).reply = .reject failure →
    (parser.sepBy separator).rule.run follow input gauges =
      ⟨.accept [] input, (parser.rule.run follow input gauges).gauges, (parser.rule.run follow input gauges).log⟩
  something : (∀ failure, (parser.rule.run follow input gauges).reply ≠ .reject failure) →
    (parser.sepBy separator).rule.run follow input gauges = (parser.sepBy1 separator).rule.run follow input gauges
  /-- A separator that no value follows is given back. -/
  returned : ∀ value after failure, (separator.rule.run follow input gauges).reply = .accept value after →
    (parser.rule.run follow after (separator.rule.run follow input gauges).gauges).reply = .reject failure →
    ((separator.keepRight parser).many.rule.run follow input gauges).reply = .accept [] input
  /-- What is left is where the last value ended. -/
  last : ∀ values rest, ((parser.sepBy1 separator).rule.run follow input gauges).reply = .accept values rest →
    ∃ place middle last, (Forward (separator.rule.run follow) → input.Leads place) ∧
      (parser.rule.run follow place middle).reply = .accept last rest ∧ values.getLast? = some last

theorem separates (forward : Forward (parser.rule.run follow)) : Separates follow parser separator input gauges where
  rounds := run_sepBy1 follow parser separator input gauges
  looped := by
    intro head rest first
    have size : rest.source.size = input.source.size := by rw [(forward _ _ _ _ first).source]
    rw [run_sepBy1, Rule.repeatFrom_eq (List.cons_ne_nil head []), ← size, List.reverse_singleton]
    simp only [Outcome.bind, first, run_many]
    rfl
  rejected := fun _ => run_sepBy1_reject follow parser separator input gauges
  nothing := fun _ => run_sepBy_of_reject follow parser separator input gauges
  something := fun settled => Outcome.recover_of_ne_reject
    (fun failure rejected => settled failure ((run_sepBy1_reject follow parser separator input gauges).mp rejected)) _
  returned := by
    intro value after failure taken missed
    have rejected : ((separator.keepRight parser).rule.run follow input gauges).reply = .reject failure := by
      rw [run_keepRight]
      exact Outcome.bind_eq_reject.mpr (.inr ⟨value, after, taken, missed⟩)
    rw [run_many, Rule.repeated_of_reject rejected]
  last := fun _ _ => last_of_sepBy1 follow parser separator input gauges forward

/-- Repetitions of a parser whose successes move forward, told by recursion. Zero or more end after no more applications
than there are tokens ahead and one, never fail, and unfold into one application and the repetition after it. One or
more are the same, except that they fail as the first application does. Separated values are one value and the rounds of
a separator and a value after it, or, where the first value fails, that failure or no values; a separator without a
value after it is never taken. -/
theorem repetitions_unfold (forward : Forward (parser.rule.run follow)) :
    Unfolds parser.label (parser.rule.run follow) (parser.many.rule.run follow) input gauges ∧
      (∀ failure, (parser.rule.run follow input gauges).reply = .reject failure →
        parser.many1.rule.run follow input gauges = ⟨.reject failure, (parser.rule.run follow input gauges).gauges,
          (parser.rule.run follow input gauges).log⟩) ∧
      ((∀ failure, (parser.rule.run follow input gauges).reply ≠ .reject failure) →
        parser.many1.rule.run follow input gauges = parser.many.rule.run follow input gauges) ∧
      Separates follow parser separator input gauges ∧
      (Forward (separator.rule.run follow) →
        Unfolds (separator.keepRight parser).label ((separator.keepRight parser).rule.run follow)
          ((separator.keepRight parser).many.rule.run follow) input gauges) :=
  ⟨forward.unfolds parser.label input gauges,
    fun _ => run_many1_of_reject follow parser input gauges,
    run_many1_of_ne_reject follow parser input gauges,
    separates follow parser separator input gauges forward,
    fun forward' => (forward_keepRight follow parser separator forward forward').unfolds _ input gauges⟩

/-- Of `xx,` the letters count one each and nothing counts zero: two applications move and the third one stands still.
The comma is a separator that no letter follows. -/
theorem repetitions_unfold_letters :
    let wiring : Wiring (fun _ => Empty) := ⟨nofun, 0⟩
    let letter : Parser (fun _ => Empty) Nat := (char 'x').mapTo 1
    let parser := letter.orElse (always 0)
    let start := Input.ofChars ['x', 'x', ',']
    (Forward (parser.rule.run (wiring.follow 0)) ∧ parser.many.rule.run (wiring.follow 0) start [] =
      ⟨.accept [1, 1, 0] (start.advance 2), [], [.stalled "x orElse always" ⟨0, 2⟩]⟩) ∧
      Forward (letter.rule.run (wiring.follow 0)) ∧
        (((char ',').keepRight letter).many.rule.run (wiring.follow 0) (start.advance 2) []).reply =
          .accept [] (start.advance 2) := by
  intro wiring letter parser start
  have forward : Forward (parser.rule.run (wiring.follow 0)) := fun _ _ _ _ accepted => Rule.leads_of_accept accepted
  have forward' : Forward (letter.rule.run (wiring.follow 0)) := fun _ _ _ _ accepted => Rule.leads_of_accept accepted
  have unfolds := fun place => (repetitions_unfold (wiring.follow 0) parser (char ',') place [] forward).1
  have first := (unfolds start).moved 1 (start.advance 1) rfl (by decide)
  have second := (unfolds (start.advance 1)).moved 1 (start.advance 2) rfl (by decide)
  have third := ((unfolds (start.advance 2)).stalled 0 (start.advance 2) rfl rfl).2
  have separates := (repetitions_unfold (wiring.follow 0) letter (char ',') (start.advance 2) [] forward').2.2.2.1
  refine ⟨⟨forward, ?_⟩, forward', separates.returned ',' (start.advance 3) _ rfl rfl⟩
  calc
    parser.many.rule.run (wiring.follow 0) start []
    _ = (parser.many.rule.run (wiring.follow 0) (start.advance 1) []).behind [1] [] := first
    _ = ((parser.many.rule.run (wiring.follow 0) (start.advance 2) []).behind [1] []).behind [1] [] := by
      rw [second]
      rfl
    _ = ⟨.accept [1, 1, 0] (start.advance 2), [], [.stalled "x orElse always" ⟨0, 2⟩]⟩ := by
      rw [third]
      rfl

end Parser

end Caret
