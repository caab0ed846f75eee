import Caret.Outcome

/-!
What parsers do, as data. A rule is one of twelve forms; every combinator is built from them. References stand for rules
that a wiring gives, so rules can be recursive without being infinite: running a rule follows its own structure, and each
reference costs one unit of a budget that the tokens of the source pay for.
-/

namespace Caret

/-- Rules over references `Ref`, by the type of the value they read. -/
inductive Rule (Ref : Type → Type) : Type → Type 1 where
  /-- One token that is accepted. -/
  | satisfy (accepts : Char → Bool) (label : String) : Rule Ref Char
  /-- The end of the input. -/
  | finish (label : String) : Rule Ref Unit
  | always {α : Type} (value : α) : Rule Ref α
  | fail {α : Type} (label message : String) : Rule Ref α
  /-- Adds to the log. -/
  | report (log : Log) : Rule Ref Unit
  | bind {α β : Type} (rule : Rule Ref α) (next : α → Rule Ref β) : Rule Ref β
  /-- Converts the value; a refusal is a failure where the rule started. -/
  | refine {α β : Type} (label : String) (rule : Rule Ref α) (convert : α → Except String β) : Rule Ref β
  /-- The second rule is tried where the first one started. -/
  | orElse {α : Type} (first second : Rule Ref α) : Rule Ref α
  /-- Repeats until the rule fails or stands still. -/
  | many1 {α : Type} (label : String) (rule : Rule Ref α) : Rule Ref (List α)
  | relabel {α : Type} (label : String) (rule : Rule Ref α) : Rule Ref α
  | forward {α : Type} (label : String) (ref : Ref α) : Rule Ref α
  /-- One level deeper on a gauge. At the limit a body that would open is a failure instead. -/
  | nested {α : Type} (gauge : Nat) (label : String) (opener : Char) (limit : Nat) (body : Rule Ref α) : Rule Ref α

abbrev Follow (Ref : Type → Type) := {α : Type} → String → Ref α → Input → Gauges → Outcome α

def Event.limitReached (label : String) (limit : Nat) (position : Position) : Event :=
  ⟨.detail, s!"{label} nesting limit {limit} reached at {shown position}"⟩

namespace Rule

variable {Ref : Type → Type} {α β : Type}

def runSatisfy (accepts : Char → Bool) (label : String) (input : Input) : Reply Char :=
  match input.next? with
  | none => .reject (.here label input)
  | some (token, rest) => if accepts token then .accept token rest else .reject (.here label input)

def runFinish (label : String) (input : Input) : Reply Unit :=
  if input.next?.isNone then .accept () input else .reject (.here label input)

def runRefined (label : String) (input : Input) : Except String β → Input → Reply β
  | .ok value, rest => .accept value rest
  | .error message, _ => .reject ⟨label, .refused message, input.snapshot⟩

/-- Applies `step` up to `count` times; `taken` holds the values so far, the last one first. -/
def repeatFrom (label : String) (step : Input → Gauges → Outcome α) :
    Nat → List α → Log → Input → Gauges → Outcome (List α)
  | 0, taken, log, input, gauges => ⟨.accept taken.reverse input, gauges, log⟩
  | count + 1, taken, log, input, gauges =>
    let outcome := step input gauges
    let log := log ++ outcome.log
    match outcome.reply with
    | .accept value rest =>
      if rest.position = input.position then
        ⟨.accept (value :: taken).reverse rest, outcome.gauges, log ++ [.stalled label input.position]⟩
      else repeatFrom label step count (value :: taken) log rest outcome.gauges
    | .reject failure =>
      if taken.isEmpty then ⟨.reject failure, outcome.gauges, log⟩
      else ⟨.accept taken.reverse input, outcome.gauges, log⟩
    | .broken fault => ⟨.broken fault, outcome.gauges, log⟩

/-- A container that would open at the limit is refused; all else runs one level deeper. -/
def runNested (gauge : Nat) (label : String) (opener : Char) (limit : Nat)
    (body : Input → Gauges → Outcome α) (input : Input) (gauges : Gauges) : Outcome α :=
  if limit ≤ (gauges.get gauge).depth && input.firstSolid? == some opener then
    let failure : Failure := ⟨label, .tooDeep limit, input.snapshot⟩
    ⟨.reject failure, gauges.modify gauge (·.record failure), [.limitReached label limit input.position]⟩
  else
    (body input (gauges.modify gauge Nesting.enter)).mapGauges (·.modify gauge Nesting.leave)

def run (follow : Follow Ref) : {α : Type} → Rule Ref α → Input → Gauges → Outcome α
  | _, .satisfy accepts label, input, gauges => ⟨runSatisfy accepts label input, gauges, []⟩
  | _, .finish label, input, gauges => ⟨runFinish label input, gauges, []⟩
  | _, .always value, input, gauges => ⟨.accept value input, gauges, []⟩
  | _, .fail label message, input, gauges => ⟨.reject ⟨label, .refused message, input.snapshot⟩, gauges, []⟩
  | _, .report log, input, gauges => ⟨.accept () input, gauges, log⟩
  | _, .bind rule next, input, gauges => (run follow rule input gauges).bind fun value => run follow (next value)
  | _, .refine label rule convert, input, gauges =>
    (run follow rule input gauges).bind fun value rest gauges => ⟨runRefined label input (convert value) rest, gauges, []⟩
  | _, .orElse first second, input, gauges => (run follow first input gauges).recover (run follow second input)
  | _, .many1 label rule, input, gauges => repeatFrom label (run follow rule) (input.source.size + 1) [] [] input gauges
  | _, .relabel label rule, input, gauges => (run follow rule input gauges).mapReply (·.relabel label)
  | _, .forward label ref, input, gauges => follow label ref input gauges
  | _, .nested gauge label opener limit body, input, gauges =>
    runNested gauge label opener limit (run follow body) input gauges

def map (convert : α → β) (rule : Rule Ref α) : Rule Ref β :=
  rule.bind fun value => .always (convert value)

end Rule

/-- Where references lead. An unwired reference leads nowhere. -/
structure Wiring (Ref : Type → Type) where
  target : {α : Type} → Ref α → Option (Rule Ref α)
  /-- How many references there are. -/
  count : Nat

namespace Wiring

variable {Ref : Type → Type}

def follow (wiring : Wiring Ref) : Nat → Follow Ref
  | 0, _, label, _, _, gauges => ⟨.broken (.endless label), gauges, []⟩
  | budget + 1, _, label, ref, input, gauges =>
    match wiring.target ref with
    | none => ⟨.broken (.unwired label), gauges, []⟩
    | some rule => rule.run (wiring.follow budget) input gauges

/-- Between two tokens each reference can be entered once before it leads back to itself. -/
def budget (wiring : Wiring Ref) (input : Input) : Nat :=
  (wiring.count + 1) * (input.source.size + 1)

end Wiring

end Caret
