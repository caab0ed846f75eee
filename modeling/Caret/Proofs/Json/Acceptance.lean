import Caret.Proofs.Agreement
import Caret.Proofs.Json.Completeness

/-!
Reading documents. What a reading comes to is settled by the trace of the document rule: its answer, and the first
refusal on the gauge of the grammar. A text is accepted just if its tokens are a document of the syntax, with the value
that the document stands for.
-/

namespace Caret.Json

open Syntax

/-! ### From traces to readings -/

inductive Settles (input : Input) (gauge limit : Nat) (trace : Trace Json) : Except Error Json → Prop
  | accepted {value : Json} {rest : List Char} (took : trace.answer = .took value rest) :
    Settles input gauge limit trace (.ok value)
  | malformed {stop : Stop} {failure : Failure} (stopped : trace.answer = .stopped stop)
    (silent : Note.firstRefusal gauge trace.notes = none) (places : stop.Places input failure) :
    Settles input gauge limit trace (.error (.malformed failure))
  | tooDeep {stop refusal : Stop} {failure : Failure} (stopped : trace.answer = .stopped stop)
    (refused : Note.firstRefusal gauge trace.notes = some refusal) (places : refusal.Places input failure) :
    Settles input gauge limit trace (.error (.tooDeep limit failure))
  | broken {fault : Fault} (broke : trace.answer = .broken fault) :
    Settles input gauge limit trace (.error (.broken fault))

theorem Grammar.read_settles {Ref : Type → Type} (grammar : Grammar Ref) (wiring : Wiring Ref) (text : String)
    (gauges : Gauges) :
    Settles (Input.ofText text) grammar.gauge grammar.options.maxDepth
      (grammar.document.trace (wiring.ask (wiring.budget (Input.ofText text))) gauges.depths (Input.ofText text).ahead)
      (grammar.read wiring text gauges).result := by
  have agrees := grammar.document.parse_agrees wiring (Input.ofText text)
    (gauges.modify grammar.gauge Nesting.forget)
  rw [Gauges.depths_forget] at agrees
  unfold Grammar.read Parser.run
  dsimp only
  generalize grammar.document.parse wiring (Input.ofText text) (gauges.modify grammar.gauge Nesting.forget) =
    outcome at agrees ⊢
  change Agrees _ _ _ (grammar.document.trace _ _ _) at agrees
  generalize grammar.document.trace (wiring.ask (wiring.budget (Input.ofText text))) gauges.depths
    (Input.ofText text).ahead = trace at agrees ⊢
  obtain ⟨reply, after, log⟩ := outcome
  obtain ⟨answer, notes⟩ := trace
  obtain ⟨places, -, follows⟩ := agrees
  simp only at places follows ⊢
  cases places with
  | @took value rest ahead leads same =>
    show Settles _ _ _ _ (.ok value)
    exact .accepted rfl
  | @stopped stop failure places =>
    obtain ⟨found, related, same⟩ := follows grammar.gauge
    rw [Gauges.get_modify, if_pos rfl] at same
    have overflow : (after.get grammar.gauge).overflow = found := by
      rw [same]
      exact Option.none_or
    show Settles _ _ _ _ (.error (errorOf grammar.options.maxDepth (after.get grammar.gauge) failure))
    unfold errorOf
    rw [overflow]
    generalize refused : Note.firstRefusal grammar.gauge notes = first at related
    cases related with
    | none => exact .malformed rfl refused places
    | some past => exact .tooDeep rfl refused past
  | @broken fault =>
    show Settles _ _ _ _ (.error (.broken fault))
    exact .broken rfl

/-! ### Which texts are accepted -/

theorem value_wired {options : Options} : (Grammar.ofOptions options).wiring.target .value =
    some (Grammar.ofLink Link.value 0 options).alternatives.rule :=
  rfl

theorem parse_settles (text : String) (options : Options) :
    ∃ budget, (Input.ofText text).ahead.length < budget ∧
      Settles (Input.ofText text) 0 options.maxDepth
        ((Grammar.ofOptions options).document.trace ((Grammar.ofOptions options).wiring.ask budget) (fun _ => 0)
          (Input.ofText text).ahead) (parse text options) := by
  exact ⟨(Grammar.ofOptions options).wiring.budget (Input.ofText text), Wiring.length_lt_budget _ _,
    (Grammar.ofOptions options).read_settles (Grammar.ofOptions options).wiring text []⟩

section Documents

variable {text : String} {options : Options} {value : Json}

theorem document_of_parse (accepted : parse text options = .ok value) :
    Document options (Input.ofText text).tokens value := by
  obtain ⟨budget, _, settles⟩ := parse_settles text options
  rw [accepted] at settles
  rw [Input.tokens_eq_ahead]
  cases settles with
  | accepted took => exact (meets_document value_wired budget rfl).takes value _ took

theorem parse_of_document (document : Document options (Input.ofText text).tokens value) :
    parse text options = .ok value := by
  obtain ⟨budget, enough, settles⟩ := parse_settles text options
  rw [Input.tokens_eq_ahead] at document
  have answer : ((Grammar.ofOptions options).document.trace ((Grammar.ofOptions options).wiring.ask budget)
    (fun _ => 0) (Input.ofText text).ahead).answer = .took value [] := answer_document value_wired rfl document enough
  generalize parse text options = result at settles
  cases settles with
  | accepted took =>
    rw [took] at answer
    cases answer
    rfl
  | malformed stopped => simp [answer] at stopped
  | tooDeep stopped => simp [answer] at stopped
  | broken broke => simp [answer] at broke

/-- A text is accepted just if its tokens are a document, and read as the value that the document stands for. -/
theorem parse_eq_ok_iff :
    parse text options = .ok value ↔ Document options (Input.ofText text).tokens value :=
  ⟨document_of_parse, parse_of_document⟩

end Documents

end Caret.Json
