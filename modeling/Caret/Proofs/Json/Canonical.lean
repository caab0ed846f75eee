import Caret.Proofs.Json.RoundTrip

/-!
Reading and printing. However a document is written, its value is one that is printed and read back as it is: its numbers
are finite, its members are in order under one name each, and it is no deeper than the limit. So the printed text is read
as the same value, under either policy.
-/

namespace Caret.Json

open Syntax

/-- What is printed and read back as it is, under a limit. -/
structure Canonical (limit : Nat) (value : Json) : Prop where
  finite : value.Finite
  ordered : value.Ordered
  depth : value.depth ≤ limit

/-! ### Values of the syntax -/

section Lists

variable {α : Type} {Element : List Char → α → Prop} {holds : α → Prop} {word : List Char} {values : List α}
  (each : ∀ word value, Element word value → holds value)

include each

theorem forall_of_more (more : More Element word values) : ∀ value ∈ values, holds value := by
  induction more with
  | nil => exact List.forall_mem_nil holds
  | cons blank element more ih => exact List.forall_mem_cons.mpr ⟨each _ _ element, ih⟩

theorem forall_of_listed (listed : Listed Element word values) : ∀ value ∈ values, holds value := by
  cases listed with
  | nil => exact List.forall_mem_nil holds
  | cons element more => exact List.forall_mem_cons.mpr ⟨each _ _ element, forall_of_more each more⟩

end Lists

theorem canonical_scalar {word : List Char} {value : Json} (scalar : Scalar word value) (limit : Nat) :
    value.Canonical limit := by
  constructor
  · intro amount part
    cases scalar <;> cases part
    assumption
  · intro members part
    cases scalar <;> cases part
  · cases scalar <;> exact Nat.zero_le limit

/-- A container is one level deeper than its parts; of members that share a name one is left. -/
theorem canonical_container {Value : List Char → Json → Prop} {policy : DuplicateKeys} {room : Nat} {word : List Char}
    {value : Json} (each : ∀ word value, Value word value → value.Canonical room)
    (container : Container Value policy word value) : value.Canonical (room + 1) := by
  cases container with
  | @array blanks word items blank listed =>
    have canonical : ∀ item ∈ items, item.Canonical room := by
      refine forall_of_listed (fun word item spaced => ?_) listed
      obtain ⟨spelled, blank⟩ := spaced
      exact each _ _ spelled
    refine ⟨finite_array fun item among => (canonical item among).finite,
      ordered_array fun item among => (canonical item among).ordered, ?_⟩
    rw [depth]
    exact Nat.succ_le_succ (itemsDepth_le.mpr fun item among => (canonical item among).depth)
  | @object blanks word members object blank listed distinct gathers =>
    have written : ∀ member ∈ members, member.2.Canonical room := by
      refine forall_of_listed (fun word member is => ?_) listed
      obtain ⟨named, blank, blank', spelled, last⟩ := is
      exact each _ _ spelled
    have canonical : ∀ member ∈ object, member.2.Canonical room :=
      fun member among => written member (gathers.mem among)
    refine ⟨finite_object fun member among => (canonical member among).finite,
      ordered_object gathers.ordered fun member among => (canonical member among).ordered, ?_⟩
    rw [depth]
    exact Nat.succ_le_succ (membersDepth_le.mpr fun member among => (canonical member among).depth)

theorem canonical_value {policy : DuplicateKeys} {room : Nat} {word : List Char} {value : Json}
    (spelled : Syntax.Value policy room word value) : value.Canonical room := by
  induction room generalizing word value with
  | zero => exact canonical_scalar spelled 0
  | succ room ih =>
    rcases spelled with scalar | container
    · exact canonical_scalar scalar (room + 1)
    · exact canonical_container (fun word value => ih) container

theorem canonical_document {options : Options} {word : List Char} {value : Json}
    (document : Document options word value) : value.Canonical options.maxDepth := by
  obtain ⟨blank, spelled, blank'⟩ := document
  exact canonical_value spelled

/-! ### Reading what is printed -/

theorem parse_of_canonical {value : Json} {options : Options} (canonical : value.Canonical options.maxDepth) :
    parse value.text options = .ok value := by
  have document := document_text canonical.ordered canonical.depth
  rw [nullified_of_finite canonical.finite] at document
  exact parse_of_document document

/-- The value of a text has only finite numbers and is no deeper than the limit; and what is printed for it is read as the
same value again, under the same limit and either policy. -/
theorem parse_printed {text : String} {options : Options} {value : Json} (accepted : parse text options = .ok value) :
    value.Finite ∧ value.depth ≤ options.maxDepth ∧
      ∀ policy, parse value.text ⟨policy, options.maxDepth⟩ = .ok value := by
  have canonical := canonical_document (document_of_parse accepted)
  exact ⟨canonical.finite, canonical.depth, fun policy => parse_of_canonical canonical⟩

/-- A document with blanks, a line break in a string, an escape in a name and a name that occurs twice. -/
theorem parse_printed_merged :
    let text := " \x7b \"b\" : [ -0.0 ] ,\n\"\\u0061\":\"x\r\ny\", \"b\" : [ [] , -0.0e7 ] \x7d\t"
    let printed := "\x7b\"a\":\"x\\ny\",\"b\":[[],-0]\x7d"
    ∃ value, parse text ⟨.lastWins, 3⟩ = .ok value ∧ value.text = printed ∧ value.Finite ∧ value.depth ≤ 3 ∧
      ∀ policy, parse printed ⟨policy, 3⟩ = .ok value := by
  intro text printed
  have chars : (parse text ⟨.lastWins, 3⟩).toOption.map Json.chars = some printed.toList := by decide +kernel
  cases accepted : parse text ⟨.lastWins, 3⟩ with
  | error error =>
    rw [accepted] at chars
    cases chars
  | ok value =>
    rw [accepted] at chars
    have same : value.text = printed := by
      rw [Json.text, Option.some.inj chars, String.ofList_toList]
    obtain ⟨finite, depth, again⟩ := parse_printed accepted
    exact ⟨value, rfl, same, finite, depth, same ▸ again⟩

end Caret.Json
