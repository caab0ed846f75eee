import Caret.Proofs.Json.Limits
import Caret.Proofs.Json.Written

/-!
Readings under the two policies for duplicate names. Both go by the one tree of a document. The policy that keeps the
later member takes every tree; the policy that refuses takes those in which no object repeats a name, and gives the same
values.
-/

namespace Caret.Json

open Syntax

section Documents

variable {text : String} {options : Options} {value : Json} {tree : Json}

theorem tree_of_parse (accepted : parse text options = .ok value) :
    ∃ tree, WrittenDocument options.maxDepth (Input.ofText text).tokens tree ∧ Passes options.duplicateKeys tree ∧
      tree.gathered = value :=
  document_iff.mp (document_of_parse accepted)

theorem parse_of_tree (document : WrittenDocument options.maxDepth (Input.ofText text).tokens tree)
    (passes : Passes options.duplicateKeys tree) : parse text options = .ok tree.gathered :=
  parse_of_document (document_iff.mpr ⟨tree, document, passes, rfl⟩)

/-- What nests within the limit and is not accepted breaks the grammar. -/
theorem malformed_of_low (low : (Brackets.after (Input.ofText text).tokens).peak ≤ options.maxDepth)
    (refused : ∀ value, parse text options ≠ .ok value) :
    ∃ failure, parse text options = .error (.malformed failure) := by
  cases result : parse text options with
  | ok value => exact absurd result (refused value)
  | error error =>
    cases error with
    | malformed failure => exact ⟨failure, rfl⟩
    | tooDeep limit failure => exact absurd (lt_peak_of_tooDeep result) (Nat.not_lt_of_le low)
    | broken fault => exact absurd result (parse_ne_broken fault)

theorem exists_of_isOk {result : Except Error Json} (ok : result.isOk = true) : ∃ value, result = .ok value := by
  cases result with
  | ok value => exact ⟨value, rfl⟩
  | error error => exact nomatch ok

/-- Without duplicates a document that repeats a name breaks the grammar. -/
theorem malformed_of_repeats {limit : Nat} (accepted : parse text ⟨.lastWins, limit⟩ = .ok value)
    (document : WrittenDocument limit (Input.ofText text).tokens tree) (repeats : ¬tree.Distinct) :
    ∃ failure, parse text ⟨.reject, limit⟩ = .error (.malformed failure) := by
  have low : (Brackets.after (Input.ofText text).tokens).peak ≤ limit :=
    Brackets.peak_document (document_of_parse accepted)
  refine malformed_of_low low fun value accepted' => ?_
  obtain ⟨other, document', passes, -⟩ := tree_of_parse accepted'
  obtain rfl : other = tree := document'.unique document
  exact repeats (passes rfl)

end Documents

/-- A document that is accepted without duplicates is accepted with them, and read as the same value. One that is
accepted with duplicates has one tree, and the value is that tree gathered; without them it is read as the same value if
no object of the tree repeats a name, and else breaks the grammar. -/
theorem policies_agree (text : String) (limit : Nat) :
    (∀ value, parse text ⟨.reject, limit⟩ = .ok value → parse text ⟨.lastWins, limit⟩ = .ok value) ∧
    ∀ value, parse text ⟨.lastWins, limit⟩ = .ok value →
      ∃ tree, (∀ other, WrittenDocument limit (Input.ofText text).tokens other ↔ other = tree) ∧
        tree.gathered = value ∧
        (tree.Distinct ∧ parse text ⟨.reject, limit⟩ = .ok value ∨
          ¬tree.Distinct ∧ ∃ failure, parse text ⟨.reject, limit⟩ = .error (.malformed failure)) := by
  constructor
  · intro value accepted
    obtain ⟨tree, document, -, rfl⟩ := tree_of_parse accepted
    exact parse_of_tree document nofun
  · intro value accepted
    obtain ⟨tree, document, -, rfl⟩ := tree_of_parse accepted
    refine ⟨tree, fun other => ⟨fun document' => document'.unique document, fun same => same ▸ document⟩, rfl, ?_⟩
    by_cases distinct : tree.Distinct
    · exact .inl ⟨distinct, parse_of_tree document fun _ => distinct⟩
    · exact .inr ⟨distinct, malformed_of_repeats accepted document distinct⟩

def overwritten : String :=
  "\x7b\"a\":\x7b\"b\":null,\"\\u0062\":true\x7d,\"a\":[]\x7d"

theorem policies_agree_overwritten :
    (∃ value, parse "[\x7b\"a\":null\x7d]" ⟨.lastWins, 2⟩ = .ok value) ∧
      ∃ tree, WrittenDocument 2 (Input.ofText overwritten).tokens tree ∧ ¬tree.Distinct := by
  have once : (parse "[\x7b\"a\":null\x7d]" ⟨.reject, 2⟩).isOk = true := by decide +kernel
  have last : (parse overwritten ⟨.lastWins, 2⟩).isOk = true := by decide +kernel
  have refused : (parse overwritten ⟨.reject, 2⟩).isOk = false := by decide +kernel
  obtain ⟨value, single⟩ := exists_of_isOk once
  obtain ⟨whole, accepted⟩ := exists_of_isOk last
  refine ⟨⟨value, (policies_agree "[\x7b\"a\":null\x7d]" 2).1 value single⟩, ?_⟩
  obtain ⟨tree, only, -, ⟨-, taken⟩ | ⟨repeats, -⟩⟩ := (policies_agree overwritten 2).2 whole accepted
  · rw [taken] at refused
    cases refused
  · exact ⟨tree, (only tree).mpr rfl, repeats⟩

end Caret.Json
