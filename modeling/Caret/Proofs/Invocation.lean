import Caret.Proofs.Likeness

/-!
References that lead nowhere. A run comes to a reference through whatever is around it: it is told here which references
a run invokes, step by step as the rules say what is run next, and no more than that. A run that invokes an unwired
reference ends in the fault of that reference, since nothing recovers from a fault. So a run that ends otherwise never
needed what was not wired, and further wires change nothing for it.
-/

namespace Caret

/-! ### What breaks -/

namespace Outcome

variable {α β : Type} {outcome : Outcome α} {fault : Fault}

theorem bind_eq_broken {next : α → Input → Gauges → Outcome β} :
    (outcome.bind next).reply = .broken fault ↔
      outcome.reply = .broken fault ∨
        ∃ value rest, outcome.reply = .accept value rest ∧ (next value rest outcome.gauges).reply = .broken fault := by
  unfold bind
  cases outcome.reply <;> simp [after, and_assoc]

theorem recover_eq_broken {other : Gauges → Outcome α} :
    (outcome.recover other).reply = .broken fault ↔
      outcome.reply = .broken fault ∨
        ∃ failure, outcome.reply = .reject failure ∧ (other outcome.gauges).reply = .broken fault := by
  unfold recover
  cases replied : outcome.reply <;> simp [after, replied]

theorem relabel_eq_broken {label : String} :
    (outcome.mapReply (·.relabel label)).reply = .broken fault ↔ outcome.reply = .broken fault := by
  unfold mapReply
  cases outcome.reply <;> simp [Reply.relabel]

end Outcome

theorem Rule.refined_eq_broken {α β : Type} {outcome : Outcome α} {fault : Fault} {label : String} {input : Input}
    {convert : α → Except String β} :
    (outcome.bind fun value rest gauges =>
        ⟨runRefined label input (convert value) rest, gauges, []⟩).reply = .broken fault ↔
      outcome.reply = .broken fault := by
  have replies : ∀ value rest, runRefined label input (convert value) rest ≠ .broken fault := by
    intro value rest
    cases convert value <;> exact nofun
  rw [Outcome.bind_eq_broken]
  simp [replies]

section Rounds

variable {α : Type}

inductive Rounds (step : Input → Gauges → Outcome α) : Input → Gauges → Input → Gauges → Prop
  | none {input : Input} {gauges : Gauges} : Rounds step input gauges input gauges
  | round {input rest last : Input} {gauges after : Gauges} {value : α}
    (accepted : (step input gauges).reply = .accept value rest) (moved : rest.position ≠ input.position)
    (more : Rounds step rest (step input gauges).gauges last after) : Rounds step input gauges last after

variable {label : String} {step : Input → Gauges → Outcome α} {fault : Fault} {count : Nat} {taken : List α} {log : Log}
  {input last : Input} {gauges after : Gauges}

/-- A repetition that breaks does so after some rounds. -/
theorem exists_rounds_of_broken
    (broke : (Rule.repeatFrom label step count taken log input gauges).reply = .broken fault) :
    ∃ last after, Rounds step input gauges last after ∧ (step last after).reply = .broken fault := by
  induction count generalizing taken log input gauges with
  | zero => cases broke
  | succ count ih =>
    rw [Rule.repeatFrom] at broke
    split at broke
    · next value rest accepted =>
      split at broke
      · cases broke
      · next moved =>
        obtain ⟨last, after, rounds, breaks⟩ := ih broke
        exact ⟨last, after, .round accepted moved rounds, breaks⟩
    · split at broke <;> cases broke
    · next other breaks =>
      obtain rfl := Reply.broken.inj broke
      exact ⟨input, gauges, .none, breaks⟩

/-- Every round leaves fewer tokens ahead, so a repetition comes to all of them. -/
theorem Rounds.broken (rounds : Rounds step input gauges last after)
    (leads : ∀ {input gauges value rest}, (step input gauges).reply = .accept value rest → input.Leads rest)
    (breaks : (step last after).reply = .broken fault) (enough : input.ahead.length < count) :
    (Rule.repeatFrom label step count taken log input gauges).reply = .broken fault := by
  induction rounds generalizing count taken log with
  | none =>
    obtain ⟨count, rfl⟩ : ∃ fewer, count = fewer + 1 := ⟨count - 1, by omega⟩
    rw [Rule.repeatFrom]
    simp only [breaks]
  | round accepted moved more ih =>
    obtain ⟨count, rfl⟩ : ∃ fewer, count = fewer + 1 := ⟨count - 1, by omega⟩
    have onward := leads accepted
    have shorter := Nat.lt_of_le_of_ne onward.length_le fun same => moved (onward.position_eq_iff.mpr same)
    rw [Rule.repeatFrom]
    simp only [accepted, if_neg moved]
    exact ih breaks (by omega)

end Rounds

/-! ### What a run invokes -/

section Invoking

variable {Ref : Type → Type} {γ : Type}

/-- A run of a rule comes to a reference under a label, with references followed to a depth of `budget`. What is run, and
from where, depends on what was run before it. -/
inductive Wiring.Invokes (wiring : Wiring Ref) (label : String) (ref : Ref γ) :
    Nat → {α : Type} → Rule Ref α → Input → Gauges → Prop
  | here {budget : Nat} {input : Input} {gauges : Gauges} :
    Invokes wiring label ref (budget + 1) (.forward label ref) input gauges
  /-- In what another reference leads to. -/
  | through {budget : Nat} {α : Type} {name : String} {other : Ref α} {rule : Rule Ref α} {input : Input}
    {gauges : Gauges} (wired : wiring.target other = some rule) (inside : Invokes wiring label ref budget rule input gauges) :
    Invokes wiring label ref (budget + 1) (.forward name other) input gauges
  | bind {budget : Nat} {α β : Type} {rule : Rule Ref α} {next : α → Rule Ref β} {input : Input} {gauges : Gauges}
    (inside : Invokes wiring label ref budget rule input gauges) :
    Invokes wiring label ref budget (.bind rule next) input gauges
  | next {budget : Nat} {α β : Type} {rule : Rule Ref α} {next : α → Rule Ref β} {input rest : Input} {gauges : Gauges}
    {value : α} (accepted : (rule.run (wiring.follow budget) input gauges).reply = .accept value rest)
    (inside : Invokes wiring label ref budget (next value) rest (rule.run (wiring.follow budget) input gauges).gauges) :
    Invokes wiring label ref budget (.bind rule next) input gauges
  | refine {budget : Nat} {α β : Type} {name : String} {rule : Rule Ref α} {convert : α → Except String β}
    {input : Input} {gauges : Gauges} (inside : Invokes wiring label ref budget rule input gauges) :
    Invokes wiring label ref budget (.refine name rule convert) input gauges
  | first {budget : Nat} {α : Type} {first second : Rule Ref α} {input : Input} {gauges : Gauges}
    (inside : Invokes wiring label ref budget first input gauges) :
    Invokes wiring label ref budget (.orElse first second) input gauges
  /-- The second rule is run only if the first one fails. -/
  | second {budget : Nat} {α : Type} {first second : Rule Ref α} {input : Input} {gauges : Gauges} {failure : Failure}
    (rejected : (first.run (wiring.follow budget) input gauges).reply = .reject failure)
    (inside : Invokes wiring label ref budget second input (first.run (wiring.follow budget) input gauges).gauges) :
    Invokes wiring label ref budget (.orElse first second) input gauges
  | many1 {budget : Nat} {α : Type} {name : String} {rule : Rule Ref α} {input last : Input} {gauges after : Gauges}
    (rounds : Rounds (rule.run (wiring.follow budget)) input gauges last after)
    (inside : Invokes wiring label ref budget rule last after) :
    Invokes wiring label ref budget (.many1 name rule) input gauges
  | relabel {budget : Nat} {α : Type} {name : String} {rule : Rule Ref α} {input : Input} {gauges : Gauges}
    (inside : Invokes wiring label ref budget rule input gauges) :
    Invokes wiring label ref budget (.relabel name rule) input gauges
  /-- The body is run unless the limit refuses it. -/
  | nested {budget gauge limit : Nat} {α : Type} {name : String} {opener : Char} {body : Rule Ref α} {input : Input}
    {gauges : Gauges} (entered : ¬(limit ≤ (gauges.get gauge).depth && input.firstSolid? == some opener))
    (inside : Invokes wiring label ref budget body input (gauges.modify gauge Nesting.enter)) :
    Invokes wiring label ref budget (.nested gauge name opener limit body) input gauges

def Wiring.InvokesUnwired (wiring : Wiring Ref) (label : String) (budget : Nat) {α : Type} (rule : Rule Ref α)
    (input : Input) (gauges : Gauges) : Prop :=
  ∃ (γ : Type) (ref : Ref γ), wiring.target ref = none ∧ wiring.Invokes label ref budget rule input gauges

variable {α β : Type} {wiring : Wiring Ref} {label : String} {ref : Ref γ} {budget : Nat} {rule : Rule Ref α}
  {input : Input} {gauges : Gauges}

theorem Wiring.InvokesUnwired.imp {outer : Rule Ref β} {budget' : Nat} {input' : Input} {gauges' : Gauges}
    (invokes : wiring.InvokesUnwired label budget rule input gauges)
    (onward : ∀ {γ : Type} {ref : Ref γ}, wiring.Invokes label ref budget rule input gauges →
      wiring.Invokes label ref budget' outer input' gauges') :
    wiring.InvokesUnwired label budget' outer input' gauges' := by
  obtain ⟨γ, ref, unwired, inside⟩ := invokes
  exact ⟨γ, ref, unwired, onward inside⟩

/-- Nothing that encloses the call of an unwired reference hides it. -/
theorem Wiring.Invokes.broken (invokes : wiring.Invokes label ref budget rule input gauges)
    (unwired : wiring.target ref = none) :
    (rule.run (wiring.follow budget) input gauges).reply = .broken (.unwired label) := by
  induction invokes with
  | here =>
    rw [Rule.run, follow_succ, unwired]
  | through wired inside ih =>
    rw [Rule.run, follow_succ, wired]
    exact ih
  | bind inside ih => exact Outcome.bind_eq_broken.mpr (.inl ih)
  | next accepted inside ih => exact Outcome.bind_eq_broken.mpr (.inr ⟨_, _, accepted, ih⟩)
  | refine inside ih => exact Rule.refined_eq_broken.mpr ih
  | first inside ih => exact Outcome.recover_eq_broken.mpr (.inl ih)
  | second rejected inside ih => exact Outcome.recover_eq_broken.mpr (.inr ⟨_, rejected, ih⟩)
  | many1 rounds inside ih =>
    exact rounds.broken Rule.leads_of_accept ih (Nat.lt_succ_of_le (Input.length_ahead_le _))
  | relabel inside ih => exact Outcome.relabel_eq_broken.mpr ih
  | nested entered inside ih =>
    rw [Rule.run, Rule.runNested, if_neg entered]
    exact ih

/-- A rule breaks only where one of its references does. -/
theorem Rule.invokes_of_broken
    (follows : ∀ {β : Type} {name : String} {other : Ref β} {input : Input} {gauges : Gauges},
      ((wiring.follow budget) name other input gauges).reply = .broken (.unwired label) →
        wiring.InvokesUnwired label budget (.forward name other) input gauges)
    (broke : (rule.run (wiring.follow budget) input gauges).reply = .broken (.unwired label)) :
    wiring.InvokesUnwired label budget rule input gauges := by
  induction rule generalizing input gauges with
  | satisfy accepts name =>
    rw [run, runSatisfy] at broke
    split at broke
    · cases broke
    · split at broke <;> cases broke
  | finish name =>
    rw [run, runFinish] at broke
    split at broke <;> cases broke
  | always | fail | report => cases broke
  | bind rule next ihRule ihNext =>
    rcases Outcome.bind_eq_broken.mp broke with broke | ⟨value, rest, accepted, broke⟩
    · exact (ihRule broke).imp .bind
    · exact (ihNext value broke).imp (.next accepted)
  | refine name rule convert ih => exact (ih (refined_eq_broken.mp broke)).imp .refine
  | orElse first second ihFirst ihSecond =>
    rcases Outcome.recover_eq_broken.mp broke with broke | ⟨failure, rejected, broke⟩
    · exact (ihFirst broke).imp .first
    · exact (ihSecond broke).imp (.second rejected)
  | many1 name rule ih =>
    obtain ⟨last, after, rounds, broke⟩ := exists_rounds_of_broken broke
    exact (ih broke).imp (.many1 rounds)
  | relabel name rule ih => exact (ih (Outcome.relabel_eq_broken.mp broke)).imp .relabel
  | forward name other => exact follows broke
  | nested gauge name opener limit body ih =>
    rw [run, runNested] at broke
    split at broke
    · cases broke
    · next entered => exact (ih broke).imp (.nested entered)

theorem Wiring.invokes_of_follow {name : String} {other : Ref α}
    (broke : ((wiring.follow budget) name other input gauges).reply = .broken (.unwired label)) :
    wiring.InvokesUnwired label budget (.forward name other) input gauges := by
  induction budget generalizing α name other input gauges with
  | zero => cases broke
  | succ budget ih =>
    rw [follow_succ] at broke
    split at broke
    · next unwired =>
      obtain rfl := Fault.unwired.inj (Reply.broken.inj broke)
      exact ⟨α, other, unwired, .here⟩
    · next rule wired => exact (Rule.invokes_of_broken ih broke).imp (.through wired)

namespace Parser

/-- A run ends in the fault of an unwired reference just when it invokes one. -/
theorem parse_eq_unwired_iff (parser : Parser Ref α) (wiring : Wiring Ref) (input : Input) (gauges : Gauges)
    (label : String) :
    (parser.parse wiring input gauges).reply = .broken (.unwired label) ↔
      wiring.InvokesUnwired label (wiring.budget input) parser.rule input gauges := by
  constructor
  · exact Rule.invokes_of_broken Wiring.invokes_of_follow
  · rintro ⟨γ, ref, unwired, invokes⟩
    exact invokes.broken unwired

end Parser

/-! ### Further wires -/

structure Wiring.Extends (wiring further : Wiring Ref) : Prop where
  target : ∀ {α : Type} {ref : Ref α} {rule : Rule Ref α}, wiring.target ref = some rule →
    further.target ref = some rule
  count : wiring.count ≤ further.count

theorem Wiring.Extends.refl (wiring : Wiring Ref) : wiring.Extends wiring :=
  ⟨id, Nat.le_refl _⟩

theorem Wiring.Extends.trans {wiring middle further : Wiring Ref} (front : wiring.Extends middle)
    (back : middle.Extends further) : wiring.Extends further :=
  ⟨fun wired => back.target (front.target wired), Nat.le_trans front.count back.count⟩

/-- A run that ends in a value or a failure ends in the same one when more references are wired. -/
theorem Parser.parse_extends {parser : Parser Ref α} {further : Wiring Ref} {gauges' : Gauges}
    (wider : wiring.Extends further) (level : gauges'.depths = gauges.depths)
    (ends : ∀ fault, (parser.parse wiring input gauges).reply ≠ .broken fault) :
    (parser.parse further input gauges').reply = (parser.parse wiring input gauges).reply := by
  have places := (parser.parse_agrees wiring input gauges).reply
  have places' := (parser.parse_agrees further input gauges').reply
  have kept : ∀ {α : Type} (ref : Ref α), further.target ref = wiring.target ref ∨
      wiring.target ref = none ∧ ∀ label, (fun _ => True) (Fault.unwired label) := by
    intro α ref
    cases wired : wiring.target ref with
    | none => exact .inr ⟨rfl, fun _ => trivial⟩
    | some rule => exact .inl (wider.target wired)
  have larger : wiring.budget input ≤ further.budget input :=
    Nat.mul_le_mul_right _ (Nat.succ_le_succ wider.count)
  have clear : (parser.rule.trace (wiring.ask (wiring.budget input)) gauges.depths input.ahead).Clear fun _ => True :=
    fun fault broke _ => ends fault (places.eq_broken_iff.mpr broke)
  rw [level, parser.rule.trace_extends (Wiring.ask_extends_of (fun _ => trivial) kept larger) _ _ clear] at places'
  exact places'.unique places

end Invoking

end Caret
