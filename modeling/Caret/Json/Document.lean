import Caret.Json.Grammar

/-!
Reading whole documents. A document that nests too deep is told apart from one that breaks the grammar by the gauge,
which keeps the first container that went past the limit, whatever the run said after it.
-/

namespace Caret.Json

inductive Error where
  /-- The text breaks the grammar. -/
  | malformed (failure : Failure)
  /-- Containers nest past the limit; the failure is at the first that does. -/
  | tooDeep (limit : Nat) (failure : Failure)
  | broken (fault : Fault)
deriving DecidableEq, Repr

namespace Error

def message : Error → String
  | malformed failure => failure.render
  | tooDeep _ failure => failure.render
  | broken fault => fault.message

instance : Shown Error :=
  ⟨fun
    | malformed failure => "Syntax(" ++ shown failure ++ ")"
    | tooDeep limit failure =>
      Text.record "NestingTooDeep" [("limit", shown limit), ("failure", shown failure)]
    | broken fault => fault.message⟩

end Error

variable {Ref : Type → Type}

structure Reading where
  result : Except Error Json
  gauges : Gauges
  log : Log

def accepted (value : Json) : Event :=
  ⟨.trace, s!"parsed JSON {value.kind}"⟩

/-- The error for a failed document: the overflow on the gauge, if there is one, counts before the failure. -/
def errorOf (limit : Nat) (nesting : Nesting) (failure : Failure) : Error :=
  match nesting.overflow with
  | some overflow => .tooDeep limit overflow
  | none => .malformed failure

def Grammar.read (grammar : Grammar Ref) (wiring : Wiring Ref) (text : String) (gauges : Gauges) : Reading :=
  let outcome := grammar.document.run wiring text (gauges.modify grammar.gauge Nesting.forget)
  match outcome.reply with
  | .accept value _ => ⟨.ok value, outcome.gauges, outcome.log ++ [accepted value]⟩
  | .reject failure =>
    ⟨.error (errorOf grammar.options.maxDepth (outcome.gauges.get grammar.gauge) failure),
      outcome.gauges.modify grammar.gauge Nesting.forget, outcome.log⟩
  | .broken fault => ⟨.error (.broken fault), outcome.gauges, outcome.log⟩

inductive Link : Type → Type where
  | value : Link Json

namespace Grammar

def ofOptions (options : Options) : Grammar Link :=
  ofLink .value 0 options

def wiring (grammar : Grammar Link) : Wiring Link :=
  ⟨fun | .value => some grammar.alternatives.rule, 1⟩

end Grammar

def parse (text : String) (options : Options := {}) : Except Error Json :=
  let grammar := Grammar.ofOptions options
  (grammar.read grammar.wiring text []).result

end Caret.Json
