import Caret.Rule

/-!
A parser is a rule under a label. The label names the parser to people: failures carry it where the parser itself gives
up, and combined parsers put theirs together from their parts.
-/

namespace Caret

structure Parser (Ref : Type → Type) (α : Type) where
  label : String
  rule : Rule Ref α

namespace Parser

variable {Ref : Type → Type} {α : Type}

def parse (wiring : Wiring Ref) (parser : Parser Ref α) (input : Input) (gauges : Gauges) : Outcome α :=
  parser.rule.run (wiring.follow (wiring.budget input)) input gauges

/-- What a run says of its reply; a fault ends it without a word. -/
def verdict (label : String) : Reply α → Log
  | .accept _ rest => [.succeeded label rest.position]
  | .reject failure => [.failed label failure]
  | .broken _ => []

def run (wiring : Wiring Ref) (parser : Parser Ref α) (text : String) (gauges : Gauges) : Outcome α :=
  let input := Input.ofText text
  let outcome := parser.parse wiring input gauges
  let log := .starting parser.label input.lineCount :: outcome.log ++ verdict parser.label outcome.reply
  { outcome with log }

instance : Shown (Parser Ref α) :=
  ⟨fun parser => Text.record "Parser" [("label", shown parser.label)]⟩

end Parser

end Caret
