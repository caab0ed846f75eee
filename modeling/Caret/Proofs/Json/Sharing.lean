import Caret.Proofs.Json.Acceptance
import Caret.Proofs.Json.Linking

/-!
One grammar among others. A grammar with a reference and a gauge of its own does what it does alone, whatever else is
wired beside it, as long as its gauge stands at depth zero when a run begins.
-/

namespace Caret.Json

section Shared

variable {Ref : Type → Type} {link : Ref Json} {gauge : Nat} {options : Options} {wiring : Wiring Ref} {gauges : Gauges}

def placed (link : Ref Json) (gauge : Nat) : Recast Link Ref where
  link
    | .value => link
  gauge own := own + gauge
  limit _ limit := limit
  apart _ _ same := Nat.add_right_cancel same
  higher _ _ := Nat.le_refl _

theorem placed_keeps (link : Ref Json) (gauge : Nat) (notes : List Note) : (placed link gauge).Keeps notes :=
  fun _ => .inl fun _ => rfl

theorem placed_gauge (link : Ref Json) (gauge : Nat) : (placed link gauge).gauge 0 = gauge :=
  Nat.zero_add gauge

theorem placed_wires (wired : wiring.target link = some (Grammar.ofLink link gauge options).alternatives.rule) :
    (placed link gauge).Wires (Grammar.ofOptions options).wiring wiring := by
  intro α ref rule found
  cases ref with
  | value =>
    cases found
    have same : (Grammar.ofOptions options).alternatives.rule.recast (placed link gauge) =
        (Grammar.ofLink link gauge options).alternatives.rule := by
      have whole := recast_alternatives (placed link gauge) Link.value 0 options
      rwa [placed_gauge] at whole
    rw [same]
    exact wired

/-- A run of a rule that is wired among others has the trace of the rule on its own. -/
theorem trace_placed {α : Type} (rule : Rule Link α) (input : Input)
    (wired : wiring.target link = some (Grammar.ofLink link gauge options).alternatives.rule)
    (level : ∀ own, (gauges.get own).depth = 0) :
    (rule.recast (placed link gauge)).trace (wiring.ask (wiring.budget input)) gauges.depths input.ahead =
      (rule.trace ((Grammar.ofOptions options).wiring.ask ((Grammar.ofOptions options).wiring.budget input))
        (Gauges.depths []) input.ahead).recast (placed link gauge) :=
  Rule.trace_recast_wired (placed_wires wired) (Grammar.guarded_wiring options) rule (Gauges.depths []) gauges.depths
    (Wiring.length_lt_budget _ input) (Wiring.length_lt_budget _ input) (fun own => level (own + gauge))
    (placed_keeps link gauge _)

/-- A reply depends on nothing but the trace. -/
theorem parse_placed {α : Type} (parser : Parser Link α) (label : String) (input : Input)
    (wired : wiring.target link = some (Grammar.ofLink link gauge options).alternatives.rule)
    (level : ∀ own, (gauges.get own).depth = 0) :
    ((⟨label, parser.rule.recast (placed link gauge)⟩ : Parser Ref α).parse wiring input gauges).reply =
      (parser.parse (Grammar.ofOptions options).wiring input []).reply := by
  have alone := (parser.parse_agrees (Grammar.ofOptions options).wiring input []).reply
  have among := (Parser.parse_agrees ⟨label, parser.rule.recast (placed link gauge)⟩ wiring input gauges).reply
  rw [trace_placed parser.rule input wired level] at among
  exact among.unique alone

/-- What a reading comes to depends on nothing but the answer and the first refusal. -/
theorem Settles.unique {input : Input} {own other limit : Nat} {trace move : Trace Json} {result too : Except Error Json}
    (settles : Settles input own limit trace result) (settled : Settles input other limit move too)
    (answer : move.answer = trace.answer)
    (refusal : Note.firstRefusal other move.notes = Note.firstRefusal own trace.notes) : too = result := by
  cases settles with
  | accepted took =>
    cases settled with
    | accepted took' => simp_all
    | _ => simp_all
  | malformed stopped silent places =>
    cases settled with
    | malformed stopped' silent' places' =>
      rw [stopped', stopped] at answer
      obtain rfl := Answer.stopped.inj answer
      rw [places.unique places']
    | _ => simp_all
  | tooDeep stopped refused places =>
    cases settled with
    | tooDeep stopped' refused' places' =>
      rw [refused', refused] at refusal
      obtain rfl := Option.some.inj refusal
      rw [places.unique places']
    | _ => simp_all
  | broken broke =>
    cases settled with
    | broken broke' => simp_all
    | _ => simp_all

/-- A text is read as by the grammar alone. -/
theorem read_placed (text : String)
    (wired : wiring.target link = some (Grammar.ofLink link gauge options).alternatives.rule)
    (level : ∀ own, (gauges.get own).depth = 0) :
    ((Grammar.ofLink link gauge options).read wiring text gauges).result = parse text options := by
  have alone := (Grammar.ofOptions options).read_settles (Grammar.ofOptions options).wiring text []
  have among := (Grammar.ofLink link gauge options).read_settles wiring text gauges
  have same : (Grammar.ofOptions options).document.rule.recast (placed link gauge) =
      (Grammar.ofLink link gauge options).document.rule := by
    have whole := recast_document (placed link gauge) Link.value 0 options
    rwa [placed_gauge] at whole
  have trace := trace_placed (Grammar.ofOptions options).document.rule (Input.ofText text) wired level
  rw [same] at trace
  have refusal := Note.firstRefusal_recast (placed link gauge) 0
    ((Grammar.ofOptions options).document.rule.trace ((Grammar.ofOptions options).wiring.ask
      ((Grammar.ofOptions options).wiring.budget (Input.ofText text))) (Gauges.depths [])
      (Input.ofText text).ahead).notes
  rw [placed_gauge] at refusal
  have answer := congrArg Trace.answer trace
  have notes := congrArg (fun trace => Note.firstRefusal gauge trace.notes) trace
  exact alone.unique among answer (notes.trans refusal)

end Shared

end Caret.Json
