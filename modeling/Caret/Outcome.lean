import Caret.Nesting

/-!
What a run comes to. The reply has three tracks: a value and the input after it, a failure of the input, or a fault of
the grammar, which no choice or repetition can recover from. Beside the reply stand the gauges and the log.
-/

namespace Caret

inductive Fault where
  | emptyChoice
  /-- A forward reference was run before it was wired. -/
  | unwired (label : String)
  /-- A forward reference leads back to itself without taking a token. -/
  | endless (label : String)
deriving DecidableEq, Repr

def Fault.message : Fault → String
  | .emptyChoice => "choice requires at least one parser"
  | .unwired label => s!"unfixed forwarded parser '{label}'"
  | .endless label => s!"endless forwarded parser '{label}'"

inductive Reply (α : Type) where
  | accept (value : α) (rest : Input)
  | reject (failure : Failure)
  | broken (fault : Fault)

namespace Reply

variable {α β : Type}

def map (convert : α → β) : Reply α → Reply β
  | .accept value rest => .accept (convert value) rest
  | .reject failure => .reject failure
  | .broken fault => .broken fault

def relabel (label : String) : Reply α → Reply α
  | .reject failure => .reject (failure.relabel label)
  | reply => reply

def value? : Reply α → Option α
  | .accept value _ => some value
  | _ => none

def failure? : Reply α → Option Failure
  | .reject failure => some failure
  | _ => none

def render [Shown α] : Reply α → String
  | .accept value _ => shown value
  | .reject failure => failure.render
  | .broken fault => fault.message

instance [Shown α] : Shown (Reply α) :=
  ⟨fun
    | .accept value rest => "Success(" ++ shown value ++ ", " ++ shown rest ++ ")"
    | .reject failure => "Failure(" ++ shown failure ++ ")"
    | .broken fault => fault.message⟩

end Reply

structure Outcome (α : Type) where
  reply : Reply α
  gauges : Gauges
  log : Log := []

namespace Outcome

variable {α β : Type}

def after (log : Log) (outcome : Outcome α) : Outcome α :=
  { outcome with log := log ++ outcome.log }

def bind (outcome : Outcome α) (next : α → Input → Gauges → Outcome β) : Outcome β :=
  match outcome.reply with
  | .accept value rest => (next value rest outcome.gauges).after outcome.log
  | .reject failure => ⟨.reject failure, outcome.gauges, outcome.log⟩
  | .broken fault => ⟨.broken fault, outcome.gauges, outcome.log⟩

/-- Goes on from a rejection; a fault stands. -/
def recover (outcome : Outcome α) (other : Gauges → Outcome α) : Outcome α :=
  match outcome.reply with
  | .reject _ => (other outcome.gauges).after outcome.log
  | _ => outcome

def mapReply (change : Reply α → Reply β) (outcome : Outcome α) : Outcome β :=
  ⟨change outcome.reply, outcome.gauges, outcome.log⟩

def mapGauges (change : Gauges → Gauges) (outcome : Outcome α) : Outcome α :=
  { outcome with gauges := change outcome.gauges }

end Outcome

end Caret
