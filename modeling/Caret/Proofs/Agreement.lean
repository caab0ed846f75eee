import Caret.Proofs.Cursor
import Caret.Proofs.Trace

/-!
A run agrees with its trace: the same answer at the cursor that has the same tokens ahead, the events that the notes tell
of, and gauges that keep their depths and record the first refusal after what they held before. So all that can be said
of a run is said of its trace, and two runs over the same tokens differ in nothing but where they are.
-/

namespace Caret

structure Stop.Places (input : Input) (stop : Stop) (failure : Failure) : Prop where
  label : failure.label = stop.label
  reason : failure.reason = stop.reason
  place : ∃ place, input.Leads place ∧ place.ahead = stop.ahead ∧ failure.place = place.snapshot

inductive Answer.Places {α : Type} (input : Input) : Answer α → Reply α → Prop
  | took {value : α} {rest : Input} {ahead : List Char} (leads : input.Leads rest) (same : rest.ahead = ahead) :
    Places input (.took value ahead) (.accept value rest)
  | stopped {stop : Stop} {failure : Failure} (places : stop.Places input failure) :
    Places input (.stopped stop) (.reject failure)
  | broken {fault : Fault} : Places input (.broken fault) (.broken fault)

/-! ### What a reply and an answer tell of each other -/

namespace Answer.Places

variable {α : Type} {input : Input} {answer : Answer α} {reply : Reply α} {value : α}

theorem of_accept {rest : Input} (places : answer.Places input (.accept value rest)) :
    input.Leads rest ∧ answer = .took value rest.ahead := by
  cases places with
  | took leads same => exact ⟨leads, by rw [same]⟩

theorem of_reject {failure : Failure} (places : answer.Places input (.reject failure)) :
    ∃ stop : Stop, answer = .stopped stop ∧ stop.Places input failure := by
  cases places with
  | stopped places => exact ⟨_, rfl, places⟩

theorem of_took {ahead : List Char} (places : (Answer.took value ahead).Places input reply) :
    ∃ rest, reply = .accept value rest ∧ input.Leads rest ∧ rest.ahead = ahead := by
  cases places with
  | took leads same => exact ⟨_, rfl, leads, same⟩

theorem of_stopped {stop : Stop} (places : (Answer.stopped stop : Answer α).Places input reply) :
    ∃ failure, reply = .reject failure ∧ stop.Places input failure := by
  cases places with
  | stopped places => exact ⟨_, rfl, places⟩

end Answer.Places

inductive Tells (input : Input) : List Note → Log → Prop
  | none : Tells input [] []
  | refused {gauge limit : Nat} {label : String} {place : Input} {notes : List Note} {log : Log}
    (leads : input.Leads place) (more : Tells input notes log) :
    Tells input (.refused gauge label limit place.ahead :: notes) (.limitReached label limit place.position :: log)
  | stalled {label : String} {place : Input} {notes : List Note} {log : Log}
    (leads : input.Leads place) (more : Tells input notes log) :
    Tells input (.stalled label place.ahead :: notes) (.stalled label place.position :: log)
  | said {events : Log} {notes : List Note} {log : Log} (more : Tells input notes log) :
    Tells input (.said events :: notes) (events ++ log)

def Gauges.depths (gauges : Gauges) : Depths :=
  fun gauge => (gauges.get gauge).depth

def Gauges.Follows (input : Input) (notes : List Note) (before after : Gauges) : Prop :=
  ∀ gauge, ∃ found, Option.Rel (Stop.Places input) (Note.firstRefusal gauge notes) found ∧
    after.get gauge =
      { depth := (before.get gauge).depth, overflow := (before.get gauge).overflow.or found }

structure Agrees {α : Type} (input : Input) (gauges : Gauges) (outcome : Outcome α) (trace : Trace α) : Prop where
  reply : trace.answer.Places input outcome.reply
  log : Tells input trace.notes outcome.log
  gauges : gauges.Follows input trace.notes outcome.gauges

/-! ### Going on from another cursor -/

section Onward

variable {input rest : Input} {α β : Type}

theorem Stop.Places.from {stop : Stop} {failure : Failure} (places : stop.Places rest failure)
    (leads : input.Leads rest) : stop.Places input failure := by
  obtain ⟨place, further, same, shot⟩ := places.place
  exact ⟨places.label, places.reason, place, leads.trans further, same, shot⟩

theorem Answer.Places.from {answer : Answer α} {reply : Reply α} (places : answer.Places rest reply)
    (leads : input.Leads rest) : answer.Places input reply := by
  cases places with
  | took further same => exact .took (leads.trans further) same
  | stopped places => exact .stopped (places.from leads)
  | broken => exact .broken

theorem Tells.from {notes : List Note} {log : Log} (tells : Tells rest notes log) (leads : input.Leads rest) :
    Tells input notes log := by
  induction tells with
  | none => exact .none
  | refused further _ ih => exact .refused (leads.trans further) ih
  | stalled further _ ih => exact .stalled (leads.trans further) ih
  | said _ ih => exact .said ih

theorem Tells.append {first second : List Note} {log more : Log} (tells : Tells input first log)
    (further : Tells input second more) : Tells input (first ++ second) (log ++ more) := by
  induction tells with
  | none => exact further
  | refused leads _ ih => exact .refused leads ih
  | stalled leads _ ih => exact .stalled leads ih
  | said _ ih =>
    rw [List.append_assoc]
    exact .said ih

theorem Gauges.Follows.depths {notes : List Note} {before after : Gauges}
    (follows : before.Follows input notes after) : after.depths = before.depths := by
  funext gauge
  obtain ⟨found, -, same⟩ := follows gauge
  simp only [Gauges.depths, same]

theorem Gauges.Follows.of_silent {notes : List Note} (silent : ∀ gauge, Note.firstRefusal gauge notes = none)
    (gauges : Gauges) : gauges.Follows input notes gauges := by
  intro gauge
  refine ⟨none, ?_, by simp⟩
  rw [silent]
  exact .none

theorem Gauges.Follows.refl (input : Input) (gauges : Gauges) : gauges.Follows input [] gauges :=
  .of_silent (fun _ => rfl) gauges

theorem Gauges.Follows.trans {first second : List Note} {before middle after : Gauges}
    (leads : input.Leads rest) (front : before.Follows input first middle)
    (back : middle.Follows rest second after) : before.Follows input (first ++ second) after := by
  intro gauge
  obtain ⟨found, places, same⟩ := front gauge
  obtain ⟨more, later, equal⟩ := back gauge
  refine ⟨found.or more, ?_, by rw [equal, same, Option.or_assoc]⟩
  rw [Note.firstRefusal_append]
  revert places later
  generalize Note.firstRefusal gauge first = one
  generalize Note.firstRefusal gauge second = two
  intro places later
  cases places with
  | some places => exact .some places
  | none =>
    cases later with
    | some places => exact .some (places.from leads)
    | none => exact .none

theorem Agrees.after {gauges middle : Gauges} {outcome : Outcome α} {trace : Trace α} {notes : List Note} {log : Log}
    (leads : input.Leads rest) (tells : Tells input notes log) (follows : gauges.Follows input notes middle)
    (agrees : Agrees rest middle outcome trace) : Agrees input gauges (outcome.after log) (trace.after notes) :=
  ⟨agrees.reply.from leads, tells.append (agrees.log.from leads), follows.trans leads agrees.gauges⟩

theorem Agrees.quiet {gauges : Gauges} {reply : Reply α} {answer : Answer α} (places : answer.Places input reply) :
    Agrees input gauges ⟨reply, gauges, []⟩ ⟨answer, []⟩ :=
  ⟨places, .none, .refl input gauges⟩

theorem Agrees.bind {gauges : Gauges} {outcome : Outcome α} {trace : Trace α}
    {next : α → Input → Gauges → Outcome β} {further : α → List Char → Trace β}
    (agrees : Agrees input gauges outcome trace)
    (onward : ∀ value rest middle, input.Leads rest → middle.depths = gauges.depths →
      Agrees rest middle (next value rest middle) (further value rest.ahead)) :
    Agrees input gauges (outcome.bind next) (trace.bind further) := by
  obtain ⟨reply, middle, log⟩ := outcome
  obtain ⟨answer, notes⟩ := trace
  obtain ⟨places, tells, follows⟩ := agrees
  cases places with
  | took leads same =>
    subst same
    exact .after leads tells follows (onward _ _ _ leads follows.depths)
  | stopped places => exact ⟨.stopped places, tells, follows⟩
  | broken => exact ⟨.broken, tells, follows⟩

theorem Agrees.recover {gauges : Gauges} {outcome : Outcome α} {trace other : Trace α} {next : Gauges → Outcome α}
    (agrees : Agrees input gauges outcome trace)
    (onward : ∀ middle : Gauges, middle.depths = gauges.depths → Agrees input middle (next middle) other) :
    Agrees input gauges (outcome.recover next) (trace.recover other) := by
  obtain ⟨reply, middle, log⟩ := outcome
  obtain ⟨answer, notes⟩ := trace
  obtain ⟨places, tells, follows⟩ := agrees
  cases places with
  | took leads same => exact ⟨.took leads same, tells, follows⟩
  | stopped places => exact .after (.here input) tells follows (onward _ follows.depths)
  | broken => exact ⟨.broken, tells, follows⟩

end Onward

/-! ### The forms of rules -/

section Forms

variable {α : Type} {input : Input} {gauges : Gauges}

/-- Where a stop is for what is ahead of the cursor, the failure shows the cursor. -/
theorem Stop.snapshot_places (label : String) (reason : Reason) (input : Input) :
    (⟨label, reason, input.ahead⟩ : Stop).Places input ⟨label, reason, input.snapshot⟩ :=
  ⟨rfl, rfl, input, .here input, rfl, rfl⟩

theorem Failure.here_places (label : String) (input : Input) :
    (Stop.here label input.ahead).Places input (.here label input) := by
  unfold Failure.here
  cases taken : input.next? with
  | none =>
    rw [Input.next?_eq_none.mp taken]
    exact ⟨rfl, rfl, input, .here input, Input.next?_eq_none.mp taken, rfl⟩
  | some next =>
    rw [Input.ahead_of_next? taken]
    exact ⟨rfl, rfl, input, .here input, Input.ahead_of_next? taken, rfl⟩

theorem satisfy_agrees (accepts : Char → Bool) (label : String) :
    Agrees input gauges ⟨Rule.runSatisfy accepts label input, gauges, []⟩
      (Rule.traceSatisfy accepts label input.ahead) := by
  have failure := Failure.here_places label input
  unfold Rule.runSatisfy
  cases taken : input.next? with
  | none =>
    rw [Input.next?_eq_none.mp taken] at failure ⊢
    exact .quiet (.stopped failure)
  | some next =>
    obtain ⟨token, rest⟩ := next
    rw [Input.ahead_of_next? taken] at failure ⊢
    cases accepted : accepts token with
    | false =>
      simp only [Rule.traceSatisfy, accepted, Bool.false_eq_true, if_false]
      exact .quiet (.stopped failure)
    | true =>
      simp only [Rule.traceSatisfy, accepted, if_true]
      exact .quiet (.took (.of_next? taken) rfl)

theorem finish_agrees (label : String) :
    Agrees input gauges ⟨Rule.runFinish label input, gauges, []⟩ (Rule.traceFinish label input.ahead) := by
  have failure := Failure.here_places label input
  unfold Rule.runFinish Rule.traceFinish
  cases taken : input.next? with
  | none =>
    rw [Input.next?_eq_none.mp taken]
    exact .quiet (.took (.here input) (Input.next?_eq_none.mp taken))
  | some next =>
    rw [Input.ahead_of_next? taken] at failure ⊢
    exact .quiet (.stopped failure)

/-- A refused conversion fails where the rule started, which is behind the cursor it went on from. -/
theorem Agrees.refine {β : Type} {outcome : Outcome α} {trace : Trace α} (label : String)
    (convert : α → Except String β) (agrees : Agrees input gauges outcome trace) :
    Agrees input gauges
      (outcome.bind fun value rest middle => ⟨Rule.runRefined label input (convert value) rest, middle, []⟩)
      (trace.bind fun value => Rule.traceRefined label input.ahead (convert value)) := by
  obtain ⟨reply, middle, log⟩ := outcome
  obtain ⟨answer, notes⟩ := trace
  obtain ⟨places, tells, follows⟩ := agrees
  cases places with
  | @took value rest ahead leads same =>
    subst same
    have placed : (Rule.traceRefined label input.ahead (convert value) rest.ahead).answer.Places input
        (Rule.runRefined label input (convert value) rest) := by
      cases convert value with
      | ok value => exact .took leads rfl
      | error message => exact .stopped (Stop.snapshot_places label (.refused message) input)
    have silent : (Rule.traceRefined label input.ahead (convert value) rest.ahead).notes = [] := by
      cases convert value <;> rfl
    refine .after (.here input) tells follows ⟨placed, ?_, ?_⟩ <;> rw [silent]
    · exact .none
    · exact .refl input middle
  | stopped places => exact ⟨.stopped places, tells, follows⟩
  | broken => exact ⟨.broken, tells, follows⟩

theorem Agrees.relabel {outcome : Outcome α} {trace : Trace α} (label : String)
    (agrees : Agrees input gauges outcome trace) :
    Agrees input gauges (outcome.mapReply (·.relabel label)) (trace.relabel label) := by
  obtain ⟨reply, middle, log⟩ := outcome
  obtain ⟨answer, notes⟩ := trace
  obtain ⟨places, tells, follows⟩ := agrees
  cases places with
  | took leads same => exact ⟨.took leads same, tells, follows⟩
  | stopped places => exact ⟨.stopped ⟨rfl, places.reason, places.place⟩, tells, follows⟩
  | broken => exact ⟨.broken, tells, follows⟩

end Forms

/-! ### Repetition -/

section Repetition

variable {α : Type}

def Trace.rounds (label : String) (move : List Char → Trace α) (taken : List α) (ahead : List Char) : Trace (List α) :=
  (if taken.isEmpty then many1 label move ahead else many label move ahead).map (taken.reverse ++ ·)

namespace Trace

variable {label : String} {move : List Char → Trace α} {ahead rest : List Char} {value : α} {notes : List Note}

theorem rounds_of_took (moved : move ahead = ⟨.took value rest, notes⟩) (shorter : rest.length < ahead.length)
    (taken : List α) :
    rounds label move taken ahead = (rounds label move (value :: taken) rest).after notes := by
  unfold rounds
  rw [many1_of_took moved shorter, many_of_took moved shorter, ite_self]
  cases answer : (many label move rest).answer <;>
    simp [map, bind, after, took, answer]

theorem rounds_of_stalled (moved : move ahead = ⟨.took value rest, notes⟩) (still : ¬rest.length < ahead.length)
    (taken : List α) :
    rounds label move taken ahead = ⟨.took (value :: taken).reverse rest, notes ++ [.stalled label ahead]⟩ := by
  have once : many1 label move ahead = _ := many1_of_stalled moved still
  simp only [rounds, many, once, bind, after, recover, ite_self, map, took, List.append_nil, List.reverse_cons]

theorem rounds_nil_of_stopped {stop : Stop} (moved : move ahead = ⟨.stopped stop, notes⟩) :
    rounds label move [] ahead = ⟨.stopped stop, notes⟩ := by
  simp [rounds, many1_eq, moved, bind, map]

theorem rounds_cons_of_stopped {stop : Stop} (moved : move ahead = ⟨.stopped stop, notes⟩) (value : α) (taken : List α) :
    rounds label move (value :: taken) ahead = ⟨.took (value :: taken).reverse ahead, notes⟩ := by
  simp [rounds, many, many1_eq, moved, bind, map, recover, took, after]

theorem rounds_of_broken {fault : Fault} (moved : move ahead = ⟨.broken fault, notes⟩) (taken : List α) :
    rounds label move taken ahead = ⟨.broken fault, notes⟩ := by
  simp only [rounds, many, many1_eq, moved, bind, recover, map, ite_self]

end Trace

theorem repeatFrom_agrees (label : String) {step : Input → Gauges → Outcome α} {move : List Char → Trace α}
    {depths : Depths}
    (agrees : ∀ input gauges, gauges.depths = depths → Agrees input gauges (step input gauges) (move input.ahead))
    (count : Nat) (taken : List α) (log : Log) (input : Input) (gauges : Gauges) (level : gauges.depths = depths)
    (enough : input.ahead.length < count) :
    ∃ outcome, Rule.repeatFrom label step count taken log input gauges = outcome.after log ∧
      Agrees input gauges outcome (.rounds label move taken input.ahead) := by
  induction count generalizing taken log input gauges with
  | zero => omega
  | succ count ih =>
    have now := agrees input gauges level
    rw [Rule.repeatFrom]
    generalize step input gauges = outcome at now ⊢
    generalize moved : move input.ahead = trace at now
    obtain ⟨reply, middle, more⟩ := outcome
    obtain ⟨answer, notes⟩ := trace
    obtain ⟨places, tells, follows⟩ := now
    simp only at places tells follows ⊢
    cases places with
    | @took value rest ahead leads same =>
      subst same
      by_cases standing : rest.position = input.position
      · -- Nothing was taken: the value stays and the repetition ends.
        have still := leads.position_eq_iff.mp standing
        simp only [standing, if_true]
        refine ⟨⟨.accept (value :: taken).reverse rest, middle, more ++ [.stalled label input.position]⟩,
          by simp [Outcome.after], ?_⟩
        rw [Trace.rounds_of_stalled moved (by omega)]
        exact ⟨.took leads rfl, tells.append (.stalled (.here input) .none),
          follows.trans leads (.of_silent (fun _ => rfl) middle)⟩
      · have shorter : rest.ahead.length < input.ahead.length :=
          Nat.lt_of_le_of_ne leads.length_le fun same => standing (leads.position_eq_iff.mpr same)
        simp only [if_neg standing]
        obtain ⟨outcome, same, further⟩ :=
          ih (value :: taken) (log ++ more) rest middle (follows.depths.trans level) (by omega)
        refine ⟨outcome.after more, by simp [same, Outcome.after], ?_⟩
        rw [Trace.rounds_of_took moved shorter]
        exact .after leads tells follows further
    | @stopped stop failure places =>
      cases taken with
      | nil =>
        refine ⟨⟨.reject failure, middle, more⟩, rfl, ?_⟩
        rw [Trace.rounds_nil_of_stopped moved]
        exact ⟨.stopped places, tells, follows⟩
      | cons value taken =>
        refine ⟨⟨.accept (value :: taken).reverse input, middle, more⟩, rfl, ?_⟩
        rw [Trace.rounds_cons_of_stopped moved]
        exact ⟨.took (.here input) rfl, tells, follows⟩
    | @broken fault =>
      refine ⟨⟨.broken fault, middle, more⟩, rfl, ?_⟩
      rw [Trace.rounds_of_broken moved]
      exact ⟨.broken, tells, follows⟩

end Repetition

/-! ### Nesting -/

theorem Gauges.get_modify (gauge other : Nat) (change : Nesting → Nesting) (gauges : Gauges) :
    (gauges.modify gauge change).get other = if other = gauge then change (gauges.get gauge) else gauges.get other := by
  unfold modify
  split
  · next same => rw [same, get_set_self]
  · next different => rw [get_set_other different]

theorem Gauges.depths_forget (gauge : Nat) (gauges : Gauges) :
    (gauges.modify gauge Nesting.forget).depths = gauges.depths := by
  funext other
  simp only [depths, get_modify]
  split
  · next same => rw [same, Nesting.forget]
  · rfl

theorem Gauges.depths_enter (gauge : Nat) (gauges : Gauges) :
    (gauges.modify gauge Nesting.enter).depths = gauges.depths.deeper gauge := by
  funext other
  simp only [depths, Depths.deeper, get_modify]
  split
  · next same => rw [same, Nesting.enter]
  · rfl

theorem Gauges.Follows.leave {input : Input} {gauge : Nat} {notes : List Note} {gauges after : Gauges}
    (follows : (gauges.modify gauge Nesting.enter).Follows input notes after) :
    gauges.Follows input notes (after.modify gauge Nesting.leave) := by
  intro other
  obtain ⟨found, places, same⟩ := follows other
  refine ⟨found, places, ?_⟩
  rw [Gauges.get_modify] at same ⊢
  split
  · next equal =>
    subst equal
    rw [if_pos rfl] at same
    rw [same]
    rfl
  · next different => rw [same, if_neg different]

theorem nested_agrees {α : Type} {body : Input → Gauges → Outcome α} {move : Depths → List Char → Trace α}
    (gauge : Nat) (label : String) (opener : Char) (limit : Nat) (input : Input) (gauges : Gauges)
    (agrees : ∀ gauges : Gauges, Agrees input gauges (body input gauges) (move gauges.depths input.ahead)) :
    Agrees input gauges (Rule.runNested gauge label opener limit body input gauges)
      (Rule.traceNested gauge label opener limit move gauges.depths input.ahead) := by
  unfold Rule.runNested Rule.traceNested
  rw [Input.firstSolid?_eq, show gauges.depths gauge = (gauges.get gauge).depth from rfl]
  by_cases refused : (limit ≤ (gauges.get gauge).depth && (input.ahead.dropWhile Text.isBlank).head? == some opener)
  · rw [if_pos refused, if_pos refused]
    refine ⟨.stopped (Stop.snapshot_places label (.tooDeep limit) input), .refused (.here input) .none, ?_⟩
    intro other
    by_cases same : gauge = other
    · subst same
      refine ⟨some ⟨label, .tooDeep limit, input.snapshot⟩, ?_, ?_⟩
      · simp only [Note.firstRefusal, Note.refusal?, List.findSome?, if_true]
        exact .some (Stop.snapshot_places label (.tooDeep limit) input)
      · rw [Gauges.get_modify, if_pos rfl, Nesting.record]
    · refine ⟨none, ?_, ?_⟩
      · simp only [Note.firstRefusal, Note.refusal?, List.findSome?, if_neg same]
        exact .none
      · rw [Gauges.get_modify, if_neg (Ne.symm same), Option.or_none]
  · rw [if_neg refused, if_neg refused]
    have inside := agrees (gauges.modify gauge Nesting.enter)
    rw [Gauges.depths_enter] at inside
    exact ⟨inside.reply, inside.log, inside.gauges.leave⟩

/-! ### Whole runs -/

section Runs

variable {Ref : Type → Type} {α : Type}

def Follow.Agrees (follow : Follow Ref) (ask : Ask Ref) : Prop :=
  ∀ {α : Type} (label : String) (ref : Ref α) (input : Input) (gauges : Gauges),
    Caret.Agrees input gauges (follow label ref input gauges) (ask label ref gauges.depths input.ahead)

theorem Rule.run_agrees {follow : Follow Ref} {ask : Ask Ref} (agrees : Follow.Agrees follow ask) (rule : Rule Ref α)
    (input : Input) (gauges : Gauges) :
    Agrees input gauges (rule.run follow input gauges) (rule.trace ask gauges.depths input.ahead) := by
  induction rule generalizing input gauges with
  | satisfy accepts label => exact satisfy_agrees accepts label
  | finish label => exact finish_agrees label
  | always value => exact .quiet (.took (.here input) rfl)
  | fail label message => exact .quiet (.stopped (Stop.snapshot_places label (.refused message) input))
  | report log =>
    refine ⟨.took (.here input) rfl, ?_, .of_silent (fun _ => rfl) gauges⟩
    have told : Tells input [.said log] (log ++ []) := .said .none
    rwa [List.append_nil] at told
  | bind rule next ihRule ihNext =>
    refine (ihRule input gauges).bind fun value rest middle _ level => ?_
    rw [← level]
    exact ihNext value rest middle
  | refine label rule convert ih => exact (ih input gauges).refine label convert
  | orElse first second ihFirst ihSecond =>
    refine (ihFirst input gauges).recover fun middle level => ?_
    rw [← level]
    exact ihSecond input middle
  | many1 label rule ih =>
    have steps : ∀ input middle, middle.depths = gauges.depths →
        Agrees input middle (rule.run follow input middle) (rule.trace ask gauges.depths input.ahead) := by
      intro input middle level
      rw [← level]
      exact ih input middle
    obtain ⟨outcome, same, agreed⟩ := repeatFrom_agrees label steps (input.source.size + 1) [] [] input gauges rfl
      (Nat.lt_succ_of_le input.length_ahead_le)
    rw [Rule.run, Rule.trace, same]
    have rounds : Trace.rounds label (rule.trace ask gauges.depths) [] input.ahead =
        .many1 label (rule.trace ask gauges.depths) input.ahead := Trace.map_self (fun _ => rfl) _
    rwa [rounds] at agreed
  | relabel label rule ih => exact (ih input gauges).relabel label
  | forward label ref => exact agrees label ref input gauges
  | nested gauge label opener limit body ih => exact nested_agrees gauge label opener limit input gauges (ih input)

theorem Wiring.follow_succ (wiring : Wiring Ref) (budget : Nat) (label : String) (ref : Ref α) (input : Input)
    (gauges : Gauges) : (wiring.follow (budget + 1)) label ref input gauges =
      match wiring.target ref with
      | none => ⟨.broken (.unwired label), gauges, []⟩
      | some rule => rule.run (wiring.follow budget) input gauges := rfl

theorem Wiring.follow_agrees (wiring : Wiring Ref) (budget : Nat) :
    Follow.Agrees (wiring.follow budget) (wiring.ask budget) := by
  induction budget with
  | zero =>
    intro α label ref input gauges
    exact .quiet .broken
  | succ budget ih =>
    intro α label ref input gauges
    change Agrees input gauges (wiring.follow (budget + 1) label ref input gauges)
      (wiring.ask (budget + 1) label ref gauges.depths input.ahead)
    rw [Wiring.follow_succ, Wiring.ask_succ]
    cases wiring.target ref with
    | none => exact .quiet .broken
    | some rule => exact rule.run_agrees ih input gauges

/-- A run leaves the depths on all gauges as it found them, whatever it comes to. -/
theorem Rule.depths_run (wiring : Wiring Ref) (budget : Nat) (rule : Rule Ref α) (input : Input) (gauges : Gauges) :
    (rule.run (wiring.follow budget) input gauges).gauges.depths = gauges.depths :=
  (Rule.run_agrees (wiring.follow_agrees budget) rule input gauges).gauges.depths

theorem Rule.leads_of_accept {wiring : Wiring Ref} {budget : Nat} {rule : Rule Ref α} {input rest : Input}
    {gauges : Gauges} {value : α} (accepted : (rule.run (wiring.follow budget) input gauges).reply = .accept value rest) :
    input.Leads rest := by
  have places := (rule.run_agrees (wiring.follow_agrees budget) input gauges).reply
  rw [accepted] at places
  exact places.of_accept.1

theorem Parser.parse_agrees (parser : Parser Ref α) (wiring : Wiring Ref) (input : Input) (gauges : Gauges) :
    Agrees input gauges (parser.parse wiring input gauges)
      (parser.rule.trace (wiring.ask (wiring.budget input)) gauges.depths input.ahead) :=
  Rule.run_agrees (wiring.follow_agrees (wiring.budget input)) parser.rule input gauges

/-- Every reference can be followed once for each token ahead, and once more. -/
theorem Wiring.length_lt_budget (wiring : Wiring Ref) (input : Input) : input.ahead.length < wiring.budget input := by
  have short := input.length_ahead_le
  have whole : 1 * (input.source.size + 1) ≤ (wiring.count + 1) * (input.source.size + 1) :=
    Nat.mul_le_mul_right _ (Nat.le_add_left 1 _)
  unfold budget
  omega

end Runs

/-! ### One trace, one reply -/

section Unique

variable {input : Input}

theorem Stop.Places.unique {stop : Stop} {failure other : Failure} (places : stop.Places input failure)
    (too : stop.Places input other) : failure = other := by
  obtain ⟨place, leads, same, shot⟩ := places.place
  obtain ⟨spot, further, equal, picture⟩ := too.place
  have label : failure.label = other.label := places.label.trans too.label.symm
  have reason : failure.reason = other.reason := places.reason.trans too.reason.symm
  have picture : failure.place = other.place := by
    rw [shot, picture, leads.unique further (same.trans equal.symm)]
  cases failure
  cases other
  simp only at label reason picture
  rw [label, reason, picture]

theorem Answer.Places.unique {α : Type} {answer : Answer α} {reply other : Reply α} (places : answer.Places input reply)
    (too : answer.Places input other) : reply = other := by
  cases places with
  | took leads same =>
    cases too with
    | took further equal => rw [leads.unique further (same.trans equal.symm)]
  | stopped places =>
    cases too with
    | stopped too => rw [places.unique too]
  | broken =>
    cases too with
    | broken => rfl

end Unique

end Caret
