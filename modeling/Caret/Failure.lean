import Caret.Event

/-!
Why and where a parser gave up. A failure is written as three lines: what failed, the line it failed in, and a caret
under the place with the reason.
-/

namespace Caret

inductive Reason where
  | noMoreInput
  | unexpected (token : Char)
  /-- Nesting has reached the limit. -/
  | tooDeep (limit : Nat)
  /-- A conversion or a parser refused in words of its own. -/
  | refused (message : String)
deriving DecidableEq, Repr

def Reason.message : Reason → String
  | .noMoreInput => "No more input"
  | .unexpected token => s!"Unexpected '{token}'"
  | .tooDeep limit => s!"Nesting too deep, limit is {limit}"
  | .refused message => message

structure Failure where
  label : String
  reason : Reason
  place : Snapshot
deriving DecidableEq, Repr

namespace Failure

def message (failure : Failure) : String :=
  failure.reason.message

def position (failure : Failure) : Position :=
  failure.place.position

def relabel (label : String) (failure : Failure) : Failure :=
  { failure with label }

/-- The failure for finding what lies under the cursor. -/
def here (label : String) (input : Input) : Failure :=
  match input.next? with
  | none => ⟨label, .noMoreInput, input.snapshot⟩
  | some (token, _) => ⟨label, .unexpected token, input.snapshot⟩

def render (failure : Failure) : String :=
  let position := failure.position
  s!"Line:{position.line} Col:{position.column} Error parsing {failure.label}\n"
    ++ failure.place.line.text ++ "\n"
    ++ String.ofList (List.replicate position.column ' ') ++ "^" ++ failure.message

instance : Shown Failure :=
  ⟨fun failure =>
    Text.record "ParseFailure"
      [("label", shown failure.label), ("message", shown failure.message), ("position", shown failure.place)]⟩

end Failure

def Event.failed (label : String) (failure : Failure) : Event :=
  ⟨.detail, s!"parser '{label}' failed as '{failure.label}' at {shown failure.position}: {failure.message}"⟩

end Caret
