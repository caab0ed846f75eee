import Caret.Proofs.Forward
import Caret.Proofs.Json.Linking
import Caret.Sum

/-!
Repetitions that never stand still. A warning is logged only where a repeated rule comes to a value without a token. In
the JSON grammar blanks, digits, characters of strings, and items and members with the comma before them are repeated,
and in sums blanks, digits and operators with the number after them; each of these takes a token first, so no warning is
ever logged.
-/

namespace Caret

def Log.Calm (log : Log) : Prop :=
  ∀ event ∈ log, event.isWarning = false

theorem Log.calm_nil : Log.Calm [] :=
  List.forall_mem_nil _

theorem Log.Calm.append {first second : Log} (calm : first.Calm) (more : second.Calm) : (first ++ second).Calm :=
  List.forall_mem_append.mpr ⟨calm, more⟩

/-! ### Logs of runs -/

namespace Outcome

variable {α β : Type} {outcome : Outcome α}

theorem calm_bind {next : α → Input → Gauges → Outcome β} (calm : outcome.log.Calm)
    (onward : ∀ value rest gauges, (next value rest gauges).log.Calm) : (outcome.bind next).log.Calm := by
  unfold Outcome.bind
  split
  · exact calm.append (onward _ _ _)
  · exact calm
  · exact calm

theorem calm_recover {other : Gauges → Outcome α} (calm : outcome.log.Calm)
    (onward : ∀ gauges, (other gauges).log.Calm) : (outcome.recover other).log.Calm := by
  unfold Outcome.recover
  split
  · exact calm.append (onward _)
  · exact calm

end Outcome

section Runs

variable {Ref : Type → Type} {α : Type}

/-- Whenever a rule comes to a value, it has moved on. -/
def Rule.Progresses (wiring : Wiring Ref) (rule : Rule Ref α) : Prop :=
  ∀ budget input gauges value rest, (rule.run (wiring.follow budget) input gauges).reply = .accept value rest →
    input.position < rest.position

theorem Rule.Advances.progresses {rule : Rule Ref α} (advances : rule.Advances) (wiring : Wiring Ref) :
    rule.Progresses wiring := by
  intro budget input gauges value rest accepted
  obtain ⟨leads, -, taken⟩ := Wiring.took_of_accept accepted
  exact leads.position_lt (rule.length_lt_of_advances (wiring.within_ask budget) advances _ _ value _ taken)

def Demands.progress (wiring : Wiring Ref) : Demands Ref where
  repeats rule := rule.Progresses wiring
  reports _ := True
  nests _ _ _ _ := True

def Demands.calm (wiring : Wiring Ref) : Demands Ref :=
  { Demands.progress wiring with reports := Log.Calm }

theorem Rule.Fulfils.progress {wiring : Wiring Ref} {rule : Rule Ref α} (fulfils : rule.Fulfils (.calm wiring)) :
    rule.Fulfils (.progress wiring) :=
  fulfils.mono (fun _ progresses => progresses) (fun _ _ => trivial) (fun _ _ _ _ _ => trivial)

/-- By induction on the rounds: none of them ends where it began, so there is nothing to warn of. -/
theorem Rule.calm_repeatFrom {label : String} {step : Input → Gauges → Outcome α}
    (calm : ∀ input gauges, (step input gauges).log.Calm)
    (moves : ∀ input gauges value rest, (step input gauges).reply = .accept value rest →
      input.position < rest.position)
    (count : Nat) (taken : List α) {log : Log} (before : log.Calm) (input : Input) (gauges : Gauges) :
    (repeatFrom label step count taken log input gauges).log.Calm := by
  induction count generalizing taken log input gauges with
  | zero => exact before
  | succ count ih =>
    have now : (log ++ (step input gauges).log).Calm := before.append (calm input gauges)
    rw [repeatFrom]
    split
    · next value rest accepted =>
      have later := moves input gauges value rest accepted
      split
      · next still =>
        rw [still] at later
        exact absurd later (by simp [Position.lt_iff])
      · exact ih (value :: taken) now rest _
    · split
      · exact now
      · exact now
    · exact now

theorem Rule.calm_run {wiring : Wiring Ref} {budget : Nat}
    (calm : ∀ {α : Type} (label : String) (ref : Ref α) (input : Input) (gauges : Gauges),
      (wiring.follow budget label ref input gauges).log.Calm)
    (rule : Rule Ref α) (fulfils : rule.Fulfils (.calm wiring)) (input : Input) (gauges : Gauges) :
    (rule.run (wiring.follow budget) input gauges).log.Calm := by
  induction rule generalizing input gauges with
  | satisfy | finish | always | fail => exact Log.calm_nil
  | report log => exact fulfils
  | bind rule next ihRule ihNext =>
    exact Outcome.calm_bind (ihRule fulfils.1 input gauges) fun value => ihNext value (fulfils.2 value)
  | refine label rule convert ih => exact Outcome.calm_bind (ih fulfils input gauges) fun _ _ _ => Log.calm_nil
  | orElse first second ihFirst ihSecond =>
    exact Outcome.calm_recover (ihFirst fulfils.1 input gauges) (ihSecond fulfils.2 input)
  | many1 label rule ih =>
    exact calm_repeatFrom (ih fulfils.2) (fulfils.1 budget) (input.source.size + 1) [] Log.calm_nil input gauges
  | relabel label rule ih => exact ih fulfils input gauges
  | forward label ref => exact calm label ref input gauges
  | nested gauge label opener limit body ih =>
    rw [run, runNested]
    split
    · exact List.forall_mem_singleton.mpr rfl
    · exact ih fulfils.2 input _

def Wiring.Calm (wiring : Wiring Ref) : Prop :=
  ∀ {α : Type} (ref : Ref α) (rule : Rule Ref α), wiring.target ref = some rule → rule.Fulfils (.calm wiring)

theorem Wiring.Calm.follow {wiring : Wiring Ref} (calm : wiring.Calm) (budget : Nat) (label : String) (ref : Ref α)
    (input : Input) (gauges : Gauges) : (wiring.follow budget label ref input gauges).log.Calm := by
  induction budget generalizing α label ref input gauges with
  | zero => exact Log.calm_nil
  | succ budget ih =>
    rw [Wiring.follow_succ]
    cases wired : wiring.target ref with
    | none => exact Log.calm_nil
    | some rule => exact rule.calm_run ih (calm ref rule wired) input gauges

def Parser.Calm (wiring : Wiring Ref) (parser : Parser Ref α) : Prop :=
  ∀ gauges, (∀ input, (parser.parse wiring input gauges).log.Calm) ∧ ∀ text, (parser.run wiring text gauges).log.Calm

theorem Parser.calm_of_fulfils {wiring : Wiring Ref} (calm : wiring.Calm) (parser : Parser Ref α)
    (fulfils : parser.rule.Fulfils (.calm wiring)) : parser.Calm wiring := by
  intro gauges
  have parses : ∀ input, (parser.parse wiring input gauges).log.Calm :=
    fun input => parser.rule.calm_run (calm.follow _) fulfils input gauges
  refine ⟨parses, fun text => ?_⟩
  have verdict : (Parser.verdict parser.label (parser.parse wiring (Input.ofText text) gauges).reply).Calm := by
    cases (parser.parse wiring (Input.ofText text) gauges).reply with
    | accept | reject => exact List.forall_mem_singleton.mpr rfl
    | broken => exact Log.calm_nil
  exact List.forall_mem_cons.mpr ⟨rfl, (parses (Input.ofText text)).append verdict⟩

end Runs

/-! ### What grammars repeat -/

section Repeated

open Caret.Parser

variable {Ref : Type → Type} (wiring : Wiring Ref)

theorem Parser.progresses_satisfy (accepts : Char → Bool) (label : String) :
    (satisfy accepts label : Parser Ref Char).rule.Progresses wiring := by
  have advances : (satisfy accepts label : Parser Ref Char).rule.Advances := trivial
  exact advances.progresses wiring

theorem Json.allowed_calm (link : Ref Json) (gauge : Nat) (options : Options) :
    Allowed (.calm wiring) (forward "value" link) gauge options where
  blanks := progresses_satisfy wiring _ _
  digits := progresses_satisfy wiring _ _
  characters := advances_stringChar.progresses wiring
  items := (advances_nextItem _).progresses wiring
  members := (advances_nextMember _).progresses wiring
  again _ := List.forall_mem_map.mpr fun _ _ => rfl
  arrays := trivial
  objects := trivial

def Sum.nextTerm : Parser Ref (Operator × Int64) :=
  (operator.keepLeft spaces).andThen number

theorem Sum.advances_nextTerm : (nextTerm : Parser Ref (Operator × Int64)).rule.Advances := by
  have operator : (operator : Parser Ref Operator).rule.Advances :=
    advances_choice (.inl trivial) (List.forall_mem_singleton.mpr (.inl trivial))
  exact advances_andThen (.inl (advances_keepLeft (.inl operator)))

theorem Sum.fulfils_expression : (expression : Parser Ref Int64).rule.Fulfils (.calm wiring) := by
  have blanks : (spaces : Parser Ref (List Char)).rule.Fulfils (.calm wiring) :=
    Json.fulfils_spaces (progresses_satisfy wiring _ _)
  have digits : (digits : Parser Ref (List Char)).rule.Fulfils (.calm wiring) :=
    ⟨progresses_satisfy wiring _ _, trivial⟩
  have operator : (operator : Parser Ref Operator).rule.Fulfils (.calm wiring) := by
    simp [Sum.operator, fulfils_choice]
  have number : (number : Parser Ref Int64).rule.Fulfils (.calm wiring) := by
    simp [Sum.number, integer, digits, blanks]
  have terms : (Demands.calm wiring).repeats (nextTerm : Parser Ref (Operator × Int64)).rule :=
    advances_nextTerm.progresses wiring
  simp only [nextTerm] at terms
  simp [expression, number, operator, terms, blanks]

end Repeated

/-! ### No warnings -/

open Caret.Parser

theorem Json.Grammar.calm_wiring (options : Options) : (Grammar.ofOptions options).wiring.Calm := by
  intro α ref rule wired
  cases ref with
  | value =>
    cases wired
    exact (allowed_calm (Grammar.ofOptions options).wiring Link.value 0 options).alternatives

theorem Json.Grammar.calm_read {Ref : Type → Type} {grammar : Grammar Ref} {wiring : Wiring Ref}
    (calm : grammar.document.Calm wiring) (text : String) (gauges : Gauges) :
    (grammar.read wiring text gauges).log.Calm := by
  have document := (calm (gauges.modify grammar.gauge Nesting.forget)).2 text
  simp only [read]
  split
  · exact document.append (List.forall_mem_singleton.mpr rfl)
  · exact document
  · exact document

theorem Sum.calm_wiring : wiring.Calm :=
  fun ref => nomatch ref

/-- Neither reading a document nor running a rule of the grammar from any cursor, be it of containers, strings, numbers
or sums, ever logs a warning: wherever such a rule repeats something, this moves on whenever it comes to a value. That
is so of blanks, digits and characters of strings, of items and members with the comma before them, and of numbers with
the operator before them. -/
theorem grammars_never_stall (options : Json.Options) :
    let grammar := Json.Grammar.ofOptions options
    (∀ text gauges, (grammar.read grammar.wiring text gauges).log.Calm) ∧
    (∀ parser ∈ [grammar.value, grammar.array, grammar.object, grammar.document, Json.stringRule, Json.numberRule],
      parser.Calm grammar.wiring) ∧
    Sum.expression.Calm Sum.wiring ∧
    (∀ parser ∈ [grammar.alternatives, grammar.array, grammar.object, grammar.document, Json.stringRule,
      Json.numberRule], parser.rule.Fulfils (.progress grammar.wiring)) ∧
    Sum.expression.rule.Fulfils (.progress Sum.wiring) ∧
    (∀ parser ∈ [blank, digit, Json.stringChar], parser.rule.Progresses grammar.wiring) ∧
    (Json.nextItem grammar.value).rule.Progresses grammar.wiring ∧
    (Json.nextMember grammar.value).rule.Progresses grammar.wiring ∧
    (∀ parser ∈ [blank, digit], parser.rule.Progresses Sum.wiring) ∧
    Sum.nextTerm.rule.Progresses Sum.wiring := by
  intro grammar
  have allowed := Json.allowed_calm grammar.wiring Json.Link.value 0 options
  have rules : ∀ parser ∈ [grammar.alternatives, grammar.array, grammar.object, grammar.document, Json.stringRule,
      Json.numberRule], parser.rule.Fulfils (.calm grammar.wiring) := by
    simp only [List.forall_mem_cons]
    exact ⟨allowed.alternatives, allowed.array, allowed.object, allowed.document,
      Json.fulfils_stringRule allowed.characters, Json.fulfils_numberRule allowed.digits, List.forall_mem_nil _⟩
  have calm : ∀ parser ∈ grammar.value :: [grammar.array, grammar.object, grammar.document, Json.stringRule,
      Json.numberRule], parser.Calm grammar.wiring := by
    have wired : grammar.wiring.Calm := Json.Grammar.calm_wiring options
    refine List.forall_mem_cons.mpr ⟨calm_of_fulfils wired grammar.value trivial, fun parser among => ?_⟩
    exact calm_of_fulfils wired parser (rules parser (List.mem_cons_of_mem _ among))
  have expression := Sum.fulfils_expression Sum.wiring
  refine ⟨Json.Grammar.calm_read (calm grammar.document (by simp)), calm,
    calm_of_fulfils Sum.calm_wiring Sum.expression expression, fun parser among => (rules parser among).progress,
    expression.progress, ?_, allowed.items, allowed.members, ?_, Sum.advances_nextTerm.progresses Sum.wiring⟩
  · simp only [List.forall_mem_cons]
    exact ⟨allowed.blanks, allowed.digits, allowed.characters, List.forall_mem_nil _⟩
  · simp only [List.forall_mem_cons]
    exact ⟨progresses_satisfy Sum.wiring _ _, progresses_satisfy Sum.wiring _ _, List.forall_mem_nil _⟩

end Caret
