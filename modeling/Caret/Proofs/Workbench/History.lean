import Caret.Proofs.Json.Sharing
import Caret.Workbench.Bench

/-!
Grammars that are used again and again. Between operations every gauge stands at depth zero, and every grammar on the
bench is the one that its number and its options make; so each operation gives what it gives on a grammar made for it.
What a run leaves on a gauge besides the depth is forgotten before the next document is read.
-/

namespace Caret.Workbench

/-! ### Operations -/

inductive Part where
  | value
  | array
  | object
  | document

def Part.of {Ref : Type → Type} (grammar : Json.Grammar Ref) : Part → Parser Ref Json
  | value => grammar.value
  | array => grammar.array
  | object => grammar.object
  | document => grammar.document

inductive Operation where
  /-- Makes a grammar; the next number is its own. -/
  | make (options : Json.Options)
  | read (number : Nat) (text : String)
  /-- Reads with the grammar that is kept for these options. -/
  | readWith (options : Json.Options) (text : String)
  /-- Runs one rule from any cursor. -/
  | run (number : Nat) (part : Part) (input : Input)

inductive Result where
  | nothing
  | reading (result : Except Json.Error Json)
  | reply (reply : Reply Json)

def Bench.perform (bench : Bench) : Operation → Result × Bench
  | .make options => (.nothing, (bench.addGrammar options).2)
  | .read number text =>
    match bench.grammars[number]? with
    | none => (.nothing, bench)
    | some grammar => ((bench.read grammar text).map .reading id)
  | .readWith options text => (bench.readWith options text).map .reading id
  | .run number part input =>
    match bench.grammars[number]? with
    | none => (.nothing, bench)
    | some grammar =>
      let outcome := (part.of grammar).parse bench.wiring input bench.gauges
      (.reply outcome.reply, { bench with gauges := outcome.gauges }.noting outcome.log)

def Bench.performAll (bench : Bench) (operations : List Operation) : Bench :=
  operations.foldl (fun bench operation => (bench.perform operation).2) bench

def Bench.options? (bench : Bench) (number : Nat) : Option Json.Options :=
  (bench.grammars[number]?).map (·.options)

/-- What an operation gives with a grammar that is made for it and never used before. -/
def Operation.afresh (options? : Nat → Option Json.Options) : Operation → Result
  | make _ => .nothing
  | read number text =>
    match options? number with
    | none => .nothing
    | some options => .reading (Json.parse text options)
  | readWith options text => .reading (Json.parse text options)
  | run number part input =>
    match options? number with
    | none => .nothing
    | some options =>
      let grammar := Json.Grammar.ofOptions options
      .reply ((part.of grammar).parse grammar.wiring input []).reply

/-! ### What stays true of a bench -/

structure Bench.Settled (bench : Bench) : Prop where
  grammars : ∀ number grammar, bench.grammars[number]? = some grammar →
    grammar = Json.Grammar.ofLink (.value number) number grammar.options
  kept : ∀ options number, (options, number) ∈ bench.kept → bench.options? number = some options
  level : ∀ gauge, (bench.gauges.get gauge).depth = 0

theorem settled_empty : ({} : Bench).Settled :=
  ⟨by simp, by simp, fun _ => rfl⟩

section Steps

variable {bench : Bench}

theorem settled_of_gauges (settled : bench.Settled) {gauges : Gauges} (level : ∀ gauge, (gauges.get gauge).depth = 0)
    (log : Log) : ({ bench with gauges }.noting log).Settled :=
  ⟨settled.grammars, settled.kept, level⟩

theorem options?_addGrammar (options : Json.Options) {number : Nat} {found : Json.Options}
    (known : bench.options? number = some found) : (bench.addGrammar options).2.options? number = some found := by
  obtain ⟨grammar, present, same⟩ := Option.map_eq_some_iff.mp known
  obtain ⟨bound, -⟩ := Array.getElem?_eq_some_iff.mp present
  have still : (bench.addGrammar options).2.grammars[number]? = bench.grammars[number]? := by
    show (bench.grammars.push _)[number]? = _
    rw [Array.getElem?_push_lt bound, Array.getElem?_eq_getElem bound]
  rw [Bench.options?, still, present, Option.map_some, same]

theorem settled_addGrammar (settled : bench.Settled) (options : Json.Options) :
    (bench.addGrammar options).2.Settled := by
  refine ⟨?_, fun options' number kept => options?_addGrammar options (settled.kept options' number kept), settled.level⟩
  intro number grammar found
  have pushed : (bench.grammars.push (bench.addGrammar options).1)[number]? = some grammar := found
  rw [Array.getElem?_push] at pushed
  split at pushed
  · next last =>
    obtain rfl := Option.some.inj pushed
    rw [last]
    rfl
  · exact settled.grammars number grammar pushed

/-- The grammar for some options is on the bench, and it has these options. -/
theorem settled_grammarFor (settled : bench.Settled) (options : Json.Options) :
    (bench.grammarFor options).2.Settled ∧ (bench.grammarFor options).1.options = options ∧
      ∃ number : Nat, (bench.grammarFor options).2.grammars[number]? = some (bench.grammarFor options).1 := by
  unfold Bench.grammarFor
  split
  · next grammar found =>
    obtain ⟨number, known, present⟩ := Option.bind_eq_some_iff.mp found
    obtain ⟨before, after, same, -⟩ := List.lookup_eq_some_iff.mp known
    have kept := settled.kept options number (by simp [same])
    rw [Bench.options?, present, Option.map_some] at kept
    exact ⟨settled, Option.some.inj kept, number, present⟩
  · have added := settled_addGrammar settled options
    have own : (bench.addGrammar options).2.grammars[bench.grammars.size]? = some (bench.addGrammar options).1 :=
      Array.getElem?_push_size
    refine ⟨⟨added.grammars, ?_, added.level⟩, rfl, bench.grammars.size, own⟩
    intro found number kept
    rcases List.mem_cons.mp kept with same | kept
    · obtain ⟨rfl, rfl⟩ := Prod.mk.inj same
      show (bench.addGrammar found).2.options? bench.grammars.size = some found
      rw [Bench.options?, own]
      rfl
    · exact added.kept found number kept

theorem wired_of_settled (settled : bench.Settled) {number : Nat} {grammar : Json.Grammar Link}
    (found : bench.grammars[number]? = some grammar) : bench.wiring.target (Link.value number) =
      some (Json.Grammar.ofLink (Link.value number) number grammar.options).alternatives.rule := by
  have same := settled.grammars number grammar found
  show (bench.grammars[number]?).map _ = _
  rw [found, Option.map_some, ← same]

theorem depths_read {Ref : Type → Type} (grammar : Json.Grammar Ref) (wiring : Wiring Ref) (text : String)
    (gauges : Gauges) : (grammar.read wiring text gauges).gauges.depths = gauges.depths := by
  have ran := (grammar.document.parse_agrees wiring (Input.ofText text)
    (gauges.modify grammar.gauge Nesting.forget)).gauges.depths
  rw [Gauges.depths_forget] at ran
  unfold Json.Grammar.read Parser.run
  dsimp only
  split
  · exact ran
  · rw [Gauges.depths_forget]
    exact ran
  · exact ran

theorem read_settled (settled : bench.Settled) {number : Nat} {grammar : Json.Grammar Link}
    (found : bench.grammars[number]? = some grammar) (text : String) :
    (bench.read grammar text).1 = Json.parse text grammar.options ∧ (bench.read grammar text).2.Settled := by
  have wired := wired_of_settled settled found
  have same := settled.grammars number grammar found
  have kept := depths_read grammar bench.wiring text bench.gauges
  constructor
  · have read := Json.read_placed text wired settled.level
    rwa [← same] at read
  · apply settled_of_gauges settled
    intro gauge
    calc
      ((grammar.read bench.wiring text bench.gauges).gauges.get gauge).depth = (bench.gauges.get gauge).depth :=
        congrFun kept gauge
      _ = 0 := settled.level gauge

theorem recast_part (part : Part) (number : Nat) (options : Json.Options) :
    (part.of (Json.Grammar.ofOptions options)).rule.recast (Json.placed (Link.value number) number) =
      (part.of (Json.Grammar.ofLink (Link.value number) number options)).rule := by
  have gauge := Json.placed_gauge (Link.value number) number
  cases part with
  | value => rfl
  | array =>
    have same := Json.recast_array (Json.placed (Link.value number) number) Json.Link.value 0 options
    rwa [gauge] at same
  | object =>
    have same := Json.recast_object (Json.placed (Link.value number) number) Json.Link.value 0 options
    rwa [gauge] at same
  | document => rfl

theorem parse_settled (settled : bench.Settled) {number : Nat} {grammar : Json.Grammar Link}
    (found : bench.grammars[number]? = some grammar) (part : Part) (input : Input) :
    ((part.of grammar).parse bench.wiring input bench.gauges).reply =
      ((part.of (Json.Grammar.ofOptions grammar.options)).parse (Json.Grammar.ofOptions grammar.options).wiring input
        []).reply := by
  have same := settled.grammars number grammar found
  have placed := Json.parse_placed (part.of (Json.Grammar.ofOptions grammar.options)) (part.of grammar).label input
    (wired_of_settled settled found) settled.level
  rw [recast_part, ← same] at placed
  exact placed

/-- One operation gives what it gives afresh, and leaves the bench as it should be. -/
theorem perform_settled (settled : bench.Settled) (operation : Operation) :
    (bench.perform operation).1 = operation.afresh bench.options? ∧ (bench.perform operation).2.Settled := by
  cases operation with
  | make options => exact ⟨rfl, settled_addGrammar settled options⟩
  | read number text =>
    cases found : bench.grammars[number]? with
    | none =>
      simp only [Bench.perform, Operation.afresh, Bench.options?, found]
      exact ⟨rfl, settled⟩
    | some grammar =>
      simp only [Bench.perform, Operation.afresh, Bench.options?, found]
      obtain ⟨same, still⟩ := read_settled settled found text
      exact ⟨congrArg Result.reading same, still⟩
  | readWith options text =>
    obtain ⟨ready, same, number, found⟩ := settled_grammarFor settled options
    obtain ⟨read, still⟩ := read_settled ready found text
    rw [same] at read
    exact ⟨congrArg Result.reading read, still⟩
  | run number part input =>
    cases found : bench.grammars[number]? with
    | none =>
      simp only [Bench.perform, Operation.afresh, Bench.options?, found]
      exact ⟨rfl, settled⟩
    | some grammar =>
      simp only [Bench.perform, Operation.afresh, Bench.options?, found]
      have ran := ((part.of grammar).parse_agrees bench.wiring input bench.gauges).gauges.depths
      constructor
      · exact congrArg Result.reply (parse_settled settled found part input)
      · apply settled_of_gauges settled
        intro gauge
        calc
          (((part.of grammar).parse bench.wiring input bench.gauges).gauges.get gauge).depth =
              (bench.gauges.get gauge).depth := congrFun ran gauge
          _ = 0 := settled.level gauge

theorem performAll_settled (settled : bench.Settled) (operations : List Operation) :
    (bench.performAll operations).Settled := by
  induction operations generalizing bench with
  | nil => exact settled
  | cons operation operations ih => exact ih (perform_settled settled operation).2

end Steps

/-! ### Histories -/

/-- After any operations, each operation gives what it gives on a grammar that was made for it; and every run of an array
or an object, at any depth of references, leaves the depths of all gauges as it found them. -/
theorem history_forgotten (past : List Operation) (operation : Operation) :
    ((({} : Bench).performAll past).perform operation).1 =
      operation.afresh (({} : Bench).performAll past).options? ∧
    ∀ (grammar : Json.Grammar Link) (budget : Nat) (input : Input) (gauges : Gauges),
      (grammar.array.rule.run ((({} : Bench).performAll past).wiring.follow budget) input gauges).gauges.depths =
        gauges.depths ∧
      (grammar.object.rule.run ((({} : Bench).performAll past).wiring.follow budget) input gauges).gauges.depths =
        gauges.depths := by
  have settled := performAll_settled settled_empty past
  constructor
  · exact (perform_settled settled operation).1
  · intro grammar budget input gauges
    constructor
    · exact Rule.depths_run _ budget grammar.array.rule input gauges
    · exact Rule.depths_run _ budget grammar.object.rule input gauges

end Caret.Workbench
