import Caret.Proofs.Invocation
import Caret.Proofs.Workbench.History

/-!
Forward references on a bench. Whatever is done on a bench, a reference leads to the first parser that it was ever given,
and every parser after that is refused. So the wiring of a bench only grows, and a run that ends in a value or a failure
ends in the same one at any later time.
-/

namespace Caret.Workbench

/-! ### What is done on a bench -/

inductive Act : Type 1 where
  /-- Makes a forward reference. -/
  | create (name label : String)
  /-- Gives a parser to the forward reference with a name. -/
  | wire (name : String) (parser : Parser Link Datum)
  | define (name : String) (parser : Parser Link Datum)
  | run {α : Type} (parser : Parser Link α) (text : String) (skip : Option Nat)
  | use (operation : Operation)

def Bench.act (bench : Bench) : Act → Bench
  | .create name label => bench.addForward name label
  | .wire name parser =>
    match bench.wire name parser with
    | some (.ok wired) => wired
    | _ => bench
  | .define name parser => bench.define name parser
  | .run parser text skip => (bench.run parser text skip).2
  | .use operation => (bench.perform operation).2

def Bench.actAll (bench : Bench) (acts : List Act) : Bench :=
  acts.foldl act bench

def Act.attempt? (number : Nat) (bench : Bench) : Act → Option (Parser Link Datum)
  | wire name parser => if bench.cells.lookup name = some number then some parser else none
  | _ => none

def attempts (number : Nat) : Bench → List Act → List (Parser Link Datum)
  | _, [] => []
  | bench, act :: acts => (act.attempt? number bench).toList ++ attempts number (bench.act act) acts

def Bench.assign (bench : Bench) (number : Nat) (slot : Slot) (parser : Parser Link Datum) : Bench :=
  { bench with slots := bench.slots.setIfInBounds number { slot with target := some parser } }.noting [.wired slot.label]

section Steps

variable {bench : Bench} {name : String} {number : Nat} {slot : Slot}

theorem wire_of_found (parser : Parser Link Datum) (addressed : bench.cells.lookup name = some number)
    (found : bench.slots[number]? = some slot) : bench.wire name parser =
      some (if slot.wired then .error ⟨slot.label⟩ else .ok (bench.assign number slot parser)) := by
  rw [Bench.wire, addressed, Option.bind_some, found, Option.map_some]
  rfl

/-- A parser that is not taken changes nothing. -/
theorem act_wire (bench : Bench) (name : String) (parser : Parser Link Datum) :
    bench.act (.wire name parser) = bench ∨
      ∃ number slot, bench.cells.lookup name = some number ∧ bench.slots[number]? = some slot ∧
        bench.act (.wire name parser) = bench.assign number slot parser := by
  rw [Bench.act]
  split
  · next wired done =>
    obtain ⟨number, addressed, mapped⟩ := Option.bind_eq_some_iff.mp done
    obtain ⟨slot, found, replied⟩ := Option.map_eq_some_iff.mp mapped
    dsimp only at replied
    split at replied
    · cases replied
    · exact .inr ⟨number, slot, addressed, found, (Except.ok.inj replied).symm⟩
  · exact .inl rfl

/-! ### What leaves references as they are -/

/-- From one bench to the next no reference changes, grammars are only added, and the gauges keep their depths. -/
structure Bench.Keeps (bench next : Bench) : Prop where
  slots : next.slots = bench.slots
  grammars : ∀ {number : Nat} {grammar : Json.Grammar Link}, bench.grammars[number]? = some grammar →
    next.grammars[number]? = some grammar
  level : next.gauges.depths = bench.gauges.depths

theorem Bench.Keeps.refl (bench : Bench) : bench.Keeps bench :=
  ⟨rfl, id, rfl⟩

theorem Bench.Keeps.trans {middle next : Bench} (front : bench.Keeps middle) (back : middle.Keeps next) :
    bench.Keeps next :=
  ⟨back.slots.trans front.slots, fun found => back.grammars (front.grammars found), back.level.trans front.level⟩

theorem keeps_of_gauges {gauges : Gauges} (level : gauges.depths = bench.gauges.depths) (log : Log) :
    bench.Keeps ({ bench with gauges }.noting log) :=
  ⟨rfl, id, level⟩

theorem keeps_addGrammar (bench : Bench) (options : Json.Options) : bench.Keeps (bench.addGrammar options).2 := by
  refine ⟨rfl, fun {number} grammar found => ?_, rfl⟩
  obtain ⟨bound, -⟩ := Array.getElem?_eq_some_iff.mp found
  show (bench.grammars.push _)[number]? = _
  rw [Array.getElem?_push_lt bound, ← Array.getElem?_eq_getElem bound]
  exact found

theorem keeps_grammarFor (bench : Bench) (options : Json.Options) : bench.Keeps (bench.grammarFor options).2 := by
  unfold Bench.grammarFor
  split
  · exact .refl bench
  · have added := keeps_addGrammar bench options
    exact ⟨added.slots, added.grammars, added.level⟩

theorem keeps_read (bench : Bench) (grammar : Json.Grammar Link) (text : String) :
    bench.Keeps (bench.read grammar text).2 :=
  keeps_of_gauges (depths_read grammar bench.wiring text bench.gauges) _

def start (text : String) : Option Nat → Input
  | none => Input.ofText text
  | some count => (Input.ofText text).advance count

theorem reply_run {α : Type} (bench : Bench) (parser : Parser Link α) (text : String) (skip : Option Nat) :
    (bench.run parser text skip).1 = (parser.parse bench.wiring (start text skip) bench.gauges).reply := by
  cases skip <;> rfl

theorem keeps_run {α : Type} (bench : Bench) (parser : Parser Link α) (text : String) (skip : Option Nat) :
    bench.Keeps (bench.run parser text skip).2 := by
  have level := (parser.parse_agrees bench.wiring (start text skip) bench.gauges).gauges.depths
  cases skip with
  | none => exact keeps_of_gauges level _
  | some count => exact keeps_of_gauges level _

theorem keeps_perform (bench : Bench) (operation : Operation) : bench.Keeps (bench.perform operation).2 := by
  cases operation with
  | make options => exact keeps_addGrammar bench options
  | read number text =>
    rw [Bench.perform]
    split
    · exact .refl bench
    · exact keeps_read bench _ text
  | readWith options text => exact (keeps_grammarFor bench options).trans (keeps_read _ _ text)
  | run number part input =>
    rw [Bench.perform]
    split
    · exact .refl bench
    · exact keeps_of_gauges (Parser.parse_agrees _ bench.wiring input bench.gauges).gauges.depths _

/-! ### The first parser stays -/

/-- An act gives a slot at most one parser, and the slot takes it only if it is empty. -/
theorem slots_act (found : bench.slots[number]? = some slot) (act : Act) :
    (bench.act act).slots[number]? = some { slot with target := slot.target.or (act.attempt? number bench) } := by
  have same : bench.slots[number]? = some { slot with target := slot.target.or none } := by
    rw [found, Option.or_none]
  cases act with
  | create name label =>
    obtain ⟨bound, -⟩ := Array.getElem?_eq_some_iff.mp found
    show (bench.slots.push _)[number]? = _
    rw [Array.getElem?_push_lt bound, ← Array.getElem?_eq_getElem bound]
    exact same
  | wire name parser =>
    rw [Act.attempt?]
    by_cases addressed : bench.cells.lookup name = some number
    · have replied := wire_of_found parser addressed found
      rw [if_pos addressed, Bench.act, replied, Slot.wired]
      cases target : slot.target with
      | none =>
        obtain ⟨bound, -⟩ := Array.getElem?_eq_some_iff.mp found
        exact Array.getElem?_setIfInBounds_self_of_lt bound
      | some first =>
        rw [target] at same
        exact same
    · rw [if_neg addressed]
      rcases act_wire bench name parser with kept | ⟨other, slot', elsewhere, -, taken⟩
      · rwa [kept]
      · have apart : other ≠ number := by
          rintro rfl
          exact addressed elsewhere
        rw [taken]
        show (bench.slots.setIfInBounds other _)[number]? = _
        rwa [Array.getElem?_setIfInBounds_ne apart]
  | define name parser => exact same
  | run parser text skip => rwa [Bench.act, (keeps_run bench parser text skip).slots]
  | use operation => rwa [Bench.act, (keeps_perform bench operation).slots]

theorem slots_actAll (found : bench.slots[number]? = some slot) (acts : List Act) :
    (bench.actAll acts).slots[number]? =
      some { slot with target := slot.target.or (attempts number bench acts).head? } := by
  induction acts generalizing bench slot with
  | nil =>
    rw [attempts, List.head?_nil, Option.or_none]
    exact found
  | cons act acts ih =>
    have step := ih (slots_act found act)
    rw [attempts, List.head?_append, Option.head?_toList, ← Option.or_assoc]
    exact step

/-! ### The wiring grows -/

theorem grammars_act {grammar : Json.Grammar Link} (found : bench.grammars[number]? = some grammar) (act : Act) :
    (bench.act act).grammars[number]? = some grammar := by
  cases act with
  | create | define => exact found
  | wire name parser =>
    rcases act_wire bench name parser with kept | ⟨index, slot, -, -, taken⟩
    · rwa [kept]
    · rw [taken]
      exact found
  | run parser text skip => exact (keeps_run bench parser text skip).grammars found
  | use operation => exact (keeps_perform bench operation).grammars found

theorem size_le_of_found {α : Type 1} {few many : Array α}
    (found : ∀ (number : Nat) (thing : α), few[number]? = some thing → ∃ other, many[number]? = some other) :
    few.size ≤ many.size := by
  rcases Nat.eq_zero_or_pos few.size with empty | some
  · omega
  · have last : few.size - 1 < few.size := by omega
    obtain ⟨other, present⟩ := found _ _ (Array.getElem?_eq_getElem last)
    obtain ⟨bound, -⟩ := Array.getElem?_eq_some_iff.mp present
    omega

theorem target_slot (found : bench.slots[number]? = some slot) :
    bench.wiring.target (.slot number) = slot.target.map Parser.rule := by
  cases target : slot.target <;> simp [Bench.wiring, found, target]

theorem target_value : bench.wiring.target (.value number) = (bench.grammars[number]?).map (·.alternatives.rule) := rfl

theorem wiring_act (bench : Bench) (act : Act) : bench.wiring.Extends (bench.act act).wiring := by
  constructor
  · intro α ref rule leads
    cases ref with
    | slot number =>
      cases found : bench.slots[number]? with
      | none => simp [Bench.wiring, found] at leads
      | some slot =>
        rw [target_slot found] at leads
        obtain ⟨parser, given, rfl⟩ := Option.map_eq_some_iff.mp leads
        rw [target_slot (slots_act found act), given]
        rfl
    | value number =>
      rw [target_value] at leads ⊢
      obtain ⟨grammar, found, rfl⟩ := Option.map_eq_some_iff.mp leads
      rw [grammars_act found act]
      rfl
  · have slots : bench.slots.size ≤ (bench.act act).slots.size :=
      size_le_of_found fun number slot found => ⟨_, slots_act found act⟩
    have grammars : bench.grammars.size ≤ (bench.act act).grammars.size :=
      size_le_of_found fun number grammar found => ⟨grammar, grammars_act found act⟩
    exact Nat.add_le_add slots grammars

theorem wiring_actAll (bench : Bench) (acts : List Act) : bench.wiring.Extends (bench.actAll acts).wiring := by
  induction acts generalizing bench with
  | nil => exact .refl _
  | cons act acts ih => exact (wiring_act bench act).trans (ih (bench.act act))

/-! ### Runs at different times -/

theorem depths_act (bench : Bench) (act : Act) : (bench.act act).gauges.depths = bench.gauges.depths := by
  cases act with
  | create | define => rfl
  | wire name parser =>
    rcases act_wire bench name parser with kept | ⟨index, slot, -, -, taken⟩
    · rw [kept]
    · rw [taken]
      rfl
  | run parser text skip => exact (keeps_run bench parser text skip).level
  | use operation => exact (keeps_perform bench operation).level

theorem depths_actAll (bench : Bench) (acts : List Act) :
    (bench.actAll acts).gauges.depths = bench.gauges.depths := by
  induction acts generalizing bench with
  | nil => rfl
  | cons act acts ih => exact (ih (bench.act act)).trans (depths_act bench act)

/-- A run that ends in a value or a failure ends in the same one after any further acts. -/
theorem run_later {α : Type} {parser : Parser Link α} {text : String} {skip : Option Nat}
    (ends : ∀ fault, (bench.run parser text skip).1 ≠ .broken fault) (later : List Act) :
    ((bench.actAll later).run parser text skip).1 = (bench.run parser text skip).1 := by
  rw [reply_run] at ends ⊢
  rw [reply_run]
  exact Parser.parse_extends (wiring_actAll bench later) (depths_actAll bench later) ends

end Steps

/-! ### Histories -/

/-- A forward reference is wired once, and a call of one that is not wired is never hidden. After a reference is created
and whatever is done then, it leads to the first parser it was given. The first parser is taken; every later one is
refused under the label of the reference, and the bench is as it was. A run that ends in a value or a failure ends in the
same one whatever is wired or done later. A parser over any references ends in the fault of an unwired one just when its
run invokes one, and otherwise, if it ends in a value or a failure, does not depend on what is not wired yet. -/
theorem wired_once (bench : Bench) (name label : String) (past : List Act) :
    let number := bench.slots.size
    let made := bench.addForward name label
    let now := made.actAll past
    let given := attempts number made past
    now.wiring.target (.slot number) = given.head?.map Parser.rule ∧
      (∀ handle parser, now.cells.lookup handle = some number →
        (given = [] → ∃ wired, now.wire handle parser = some (.ok wired) ∧
          ∀ later, (wired.actAll later).wiring.target (.slot number) = some parser.rule) ∧
          (given ≠ [] → now.wire handle parser = some (.error ⟨label⟩) ∧ now.act (.wire handle parser) = now)) ∧
      (∀ {α : Type} (parser : Parser Link α) (text : String) (skip : Option Nat),
        (∀ fault, (now.run parser text skip).1 ≠ .broken fault) →
          ∀ later, ((now.actAll later).run parser text skip).1 = (now.run parser text skip).1) ∧
      ∀ {Ref : Type → Type} {α : Type} (parser : Parser Ref α) (wiring : Wiring Ref) (input : Input) (gauges : Gauges),
        (∀ called, (parser.parse wiring input gauges).reply = .broken (.unwired called) ↔
          wiring.InvokesUnwired called (wiring.budget input) parser.rule input gauges) ∧
        ((∀ fault, (parser.parse wiring input gauges).reply ≠ .broken fault) → ∀ further, wiring.Extends further →
          (parser.parse further input gauges).reply = (parser.parse wiring input gauges).reply) := by
  intro number made now given
  have empty : made.slots[number]? = some { label } := Array.getElem?_push_size
  have found : now.slots[number]? = some { label, target := given.head? } := slots_actAll empty past
  refine ⟨target_slot found, ?_, fun parser text skip => run_later, ?_⟩
  · intro handle parser addressed
    have replied := wire_of_found parser addressed found
    constructor
    · intro none
      rw [none] at replied found
      obtain ⟨bound, -⟩ := Array.getElem?_eq_some_iff.mp found
      have taken : (now.assign number { label } parser).slots[number]? = some { label, target := some parser } :=
        Array.getElem?_setIfInBounds_self_of_lt bound
      exact ⟨_, replied, fun later => target_slot (slots_actAll taken later)⟩
    · intro some
      obtain ⟨first, others, same⟩ := List.exists_cons_of_ne_nil some
      rw [same] at replied
      exact ⟨replied, by rw [Bench.act, replied]; rfl⟩
  · intro Ref α parser wiring input gauges
    exact ⟨parser.parse_eq_unwired_iff wiring input gauges, fun ends further wider => parser.parse_extends wider rfl ends⟩

/-- A call of a reference is not hidden by the alternative to it; then the reference is wired, and wired again. -/
theorem wired_once_refused :
    let letter := (Parser.char 'a').map Datum.char
    let call := (Parser.forward "value" (Link.slot 0)).orElse letter
    let made := ({} : Bench).addForward "cell" "value"
    let now := made.actAll [.run call "a" none, .wire "cell" letter]
    (call.parse made.wiring (Input.ofText "a") []).reply = .broken (.unwired "value") ∧
      now.wiring.target (.slot 0) = some letter.rule ∧
      now.wire "cell" (Parser.always .unit) = some (.error ⟨"value"⟩) ∧
      ((now.actAll [.create "cell" "other", .wire "cell" call]).run call "a" none).1 = (now.run call "a" none).1 := by
  intro letter call made now
  obtain ⟨leads, sets, runs, -⟩ := wired_once {} "cell" "value" [.run call "a" none, .wire "cell" letter]
  obtain ⟨-, -, -, calls⟩ := wired_once {} "cell" "value" []
  refine ⟨?_, leads, ((sets "cell" (Parser.always .unit) rfl).2 nofun).1, runs call "a" none nofun _⟩
  have called : made.wiring.InvokesUnwired "value" (made.wiring.budget (Input.ofText "a")) call.rule
      (Input.ofText "a") [] :=
    ⟨Datum, .slot 0, rfl, .first .here⟩
  exact ((calls call made.wiring (Input.ofText "a") []).1 "value").mpr called

end Caret.Workbench
