import Caret.Json.Document
import Caret.Sum
import Caret.Workbench.Recipe

/-!
The workbench: named parsers, forward references with the slots they lead to, and JSON grammars. Everything on the bench
shares one wiring, and the gauges stay between runs. What is done on the bench is logged there until somebody takes the
log.
-/

namespace Caret.Workbench

inductive Link : Type → Type where
  | slot (number : Nat) : Link Datum
  | value (grammar : Nat) : Link Json

structure Slot where
  label : String
  target : Option (Parser Link Datum) := none

namespace Slot

def wired (slot : Slot) : Bool :=
  slot.target.isSome

instance : Shown Slot :=
  ⟨fun slot => Text.record "ForwardRef" [("label", shown slot.label), ("wired", shown slot.wired)]⟩

end Slot

structure Bench where
  parsers : List (String × Parser Link Datum) := []
  /-- The slot of each forward reference, by name. -/
  cells : List (String × Nat) := []
  slots : Array Slot := #[]
  /-- The grammar with each name. -/
  named : List (String × Nat) := []
  grammars : Array (Json.Grammar Link) := #[]
  /-- The grammar kept for each set of options. -/
  kept : List (Json.Options × Nat) := []
  gauges : Gauges := []
  log : Log := []

structure AlreadyWired where
  label : String
deriving DecidableEq, Repr

def AlreadyWired.message (refusal : AlreadyWired) : String :=
  s!"forward reference '{refusal.label}' is already wired"

instance : Shown AlreadyWired :=
  ⟨fun refusal => Text.record "AlreadyWired" [("label", shown refusal.label)]⟩

inductive Trouble : Type 1 where
  | unknown (name : String)
  | fault (fault : Fault)

abbrev Build := ExceptT Trouble (StateM Bench)

namespace Bench

def wiring (bench : Bench) : Wiring Link where
  target
    | .slot number => do (← (← bench.slots[number]?).target).rule
    | .value number => (bench.grammars[number]?).map (·.alternatives.rule)
  count := bench.slots.size + bench.grammars.size

def noting (bench : Bench) (log : Log) : Bench :=
  { bench with log := bench.log ++ log }

def takeLog (bench : Bench) : Log × Bench :=
  (bench.log, { bench with log := [] })

/-! ### Grammars -/

/-- A new grammar and the bench with it; each grammar has the gauge of its own number. -/
def addGrammar (options : Json.Options) (bench : Bench) : Json.Grammar Link × Bench :=
  let number := bench.grammars.size
  let grammar := Json.Grammar.ofLink (.value number) number options
  (grammar, { bench with grammars := bench.grammars.push grammar }.noting (Json.Grammar.opening options))

def grammarFor (options : Json.Options) (bench : Bench) : Json.Grammar Link × Bench :=
  match (bench.kept.lookup options).bind (bench.grammars[·]?) with
  | some grammar => (grammar, bench)
  | none =>
    let (grammar, next) := bench.addGrammar options
    (grammar, { next with kept := (options, bench.grammars.size) :: next.kept })

def nameGrammar (name : String) (options : Json.Options) (bench : Bench) : Json.Grammar Link × Bench :=
  let (grammar, next) := bench.addGrammar options
  (grammar, { next with named := (name, bench.grammars.size) :: next.named })

def grammar? (bench : Bench) (name : String) : Option (Json.Grammar Link) :=
  (bench.named.lookup name).bind (bench.grammars[·]?)

def read (bench : Bench) (grammar : Json.Grammar Link) (text : String) : Except Json.Error Json × Bench :=
  let reading := grammar.read bench.wiring text bench.gauges
  (reading.result, { bench with gauges := reading.gauges }.noting reading.log)

def readWith (bench : Bench) (options : Json.Options) (text : String) : Except Json.Error Json × Bench :=
  let (grammar, bench) := bench.grammarFor options
  bench.read grammar text

/-! ### Forward references -/

def addForward (name label : String) (bench : Bench) : Bench :=
  let number := bench.slots.size
  { bench with
    parsers := (name, Parser.forward label (.slot number)) :: bench.parsers
    cells := (name, number) :: bench.cells
    slots := bench.slots.push { label } }

def slot? (bench : Bench) (name : String) : Option Slot :=
  (bench.cells.lookup name).bind (bench.slots[·]?)

/-- Wires a forward reference, if there is one of this name. The parser it is wired to first stays for good. -/
def wire (bench : Bench) (name : String) (parser : Parser Link Datum) : Option (Except AlreadyWired Bench) :=
  (bench.cells.lookup name).bind fun number =>
    (bench.slots[number]?).map fun slot =>
      if slot.wired then .error ⟨slot.label⟩
      else
        let slots := bench.slots.setIfInBounds number { slot with target := some parser }
        .ok ({ bench with slots }.noting [.wired slot.label])

/-! ### Parsers -/

def define (name : String) (parser : Parser Link Datum) (bench : Bench) : Bench :=
  { bench with parsers := (name, parser) :: bench.parsers }

/-- Runs a parser over a text, or from the cursor after some tokens of it; only a run over a whole text is logged as one. -/
def run {α : Type} (bench : Bench) (parser : Parser Link α) (text : String) (skip : Option Nat) : Reply α × Bench :=
  let outcome := match skip with
    | none => parser.run bench.wiring text bench.gauges
    | some count => parser.parse bench.wiring ((Input.ofText text).advance count) bench.gauges
  (outcome.reply, { bench with gauges := outcome.gauges }.noting outcome.log)

end Bench

/-! ### Building -/

def Continuation.parser (next : Continuation) (value : Datum) : Parser Link Datum :=
  match next, value with
  | same, .char expected => (Parser.char expected).map Datum.char
  | same, .text expected => (Parser.text expected).map Datum.text
  | exes, value => (Parser.sequence (List.replicate value.count (Parser.char 'x'))).map Datum.chars
  | take, value =>
    (Parser.sequence (List.replicate value.count (Parser.satisfy (fun _ => true) "any"))).map Datum.chars
  | refuse, value => Parser.fail "bound" s!"no {shown value}"
  | _, value => Parser.always value

def defaultRule (rule : Json.Grammar Link → Parser Link Json) : Build (Parser Link Json) := do
  let (grammar, bench) := (← get).grammarFor {}
  set bench
  return rule grammar

def JsonRule.build : JsonRule → Build (Parser Link Json)
  | null => return Json.nullRule
  | bool => return Json.boolRule
  | number => return Json.numberRule
  | string => return Json.stringRule
  | value => defaultRule (·.value)
  | array => defaultRule (·.array)
  | object => defaultRule (·.object)

def lookup (name : String) : Build (Parser Link Datum) := do
  match (← get).parsers.lookup name with
  | some parser => return parser
  | none => throw (.unknown name)

mutual

def Recipe.build : Recipe → Build (Parser Link Datum)
  | .named name => lookup name
  | .satisfy accepts label => return (Parser.satisfy accepts.test label).map Datum.char
  | .char expected => return (Parser.char expected).map Datum.char
  | .text expected => return (Parser.text expected).map Datum.text
  | .anyOf [] => throw (.fault .emptyChoice)
  | .anyOf (first :: others) => return (Parser.anyOf first others).map Datum.char
  | .digit => return Parser.digit.map Datum.char
  | .blank => return Parser.blank.map Datum.char
  | .spaces => return Parser.spaces.map Datum.chars
  | .spaces1 => return Parser.spaces1.map Datum.chars
  | .integer => return Parser.integer.map Datum.word
  | .float => return Parser.float.map Datum.float
  | .finish => return Parser.finish.map fun _ => Datum.unit
  | .manyChars recipe => return (Parser.manyChars ((← recipe.build).map Datum.toChar)).map Datum.text
  | .many1Chars recipe => return (Parser.many1Chars ((← recipe.build).map Datum.toChar)).map Datum.text
  | .always value => return Parser.always value
  | .fail label message => return Parser.fail label message
  | .map recipe transform => return (← recipe.build).map transform.apply
  | .tryMap recipe check => return (← recipe.build).tryMap check.apply
  | .mapTo recipe value => return (← recipe.build).mapTo value
  | .bind recipe next => return (← recipe.build).bind next.parser
  | .bindTo recipe next => do
    let parser ← recipe.build
    let next ← next.build
    return parser.bind fun _ => next
  | .andThen first second => return ((← first.build).andThen (← second.build)).map fun (x, y) => Datum.pair x y
  | .orElse first second => return (← first.build).orElse (← second.build)
  | .keepLeft first second => return (← first.build).keepLeft (← second.build)
  | .keepRight first second => return (← first.build).keepRight (← second.build)
  | .choice recipes => do
    match ← buildAll recipes with
    | [] => throw (.fault .emptyChoice)
    | first :: others => return Parser.choice first others
  | .sequence recipes => return (Parser.sequence (← buildAll recipes)).map Datum.list
  | .apply function argument => do
    let function ← function.build
    let argument ← argument.build
    return Parser.apply (function.map Datum.call) argument
  | .lift2 combine first second => return Parser.lift2 combine.apply (← first.build) (← second.build)
  | .many recipe => return (← recipe.build).many.map Datum.list
  | .many1 recipe => return (← recipe.build).many1.map Datum.list
  | .opt recipe => return (← recipe.build).opt.map Datum.ofOption
  | .sepBy recipe separator => return ((← recipe.build).sepBy (← separator.build)).map Datum.list
  | .sepBy1 recipe separator => return ((← recipe.build).sepBy1 (← separator.build)).map Datum.list
  | .between opener recipe closer =>
    return Parser.between (← opener.build) (← recipe.build) (← closer.build)
  | .withLabel recipe label => return (← recipe.build).withLabel label
  | .sum => return Sum.expression.map Datum.word
  | .json rule => return (← rule.build).map Datum.json

def buildAll : List Recipe → Build (List (Parser Link Datum))
  | [] => return []
  | recipe :: rest => do
    let parser ← recipe.build
    let parsers ← buildAll rest
    return parser :: parsers

end

/-- Builds a recipe on a bench. What was done before a fault stays done. -/
def Bench.build (bench : Bench) (recipe : Recipe) : Except Trouble (Parser Link Datum) × Bench :=
  recipe.build.run bench

end Caret.Workbench
