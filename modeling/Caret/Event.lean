import Caret.Input

/-!
What a run tells about itself besides its reply: one event per line of a log, each with a level.
-/

namespace Caret

inductive Level where
  | warning
  | detail
  | trace
deriving DecidableEq, Repr

def Level.name : Level → String
  | .warning => "WARN"
  | .detail => "DEBUG"
  | .trace => "TRACE"

structure Event where
  level : Level
  message : String
deriving DecidableEq, Repr

abbrev Log := List Event

namespace Event

def text (event : Event) : String :=
  event.level.name ++ " " ++ event.message

def isWarning (event : Event) : Bool :=
  event.level == .warning

/-- A repeated parser succeeded where it started. -/
def stalled (label : String) (position : Position) : Event :=
  ⟨.warning, s!"parser '{label}' succeeded without consuming input at {shown position}; stopping repetition"⟩

def starting (label : String) (lines : Nat) : Event :=
  ⟨.detail, s!"running parser '{label}' over {lines} line(s)"⟩

def succeeded (label : String) (position : Position) : Event :=
  ⟨.detail, s!"parser '{label}' succeeded, stopped at {shown position}"⟩

def wired (label : String) : Event :=
  ⟨.trace, s!"forward reference '{label}' wired"⟩

end Event

end Caret
