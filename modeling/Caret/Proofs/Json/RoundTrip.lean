import Caret.Proofs.Json.Acceptance
import Caret.Proofs.Json.Printed
import Caret.Proofs.Lines

/-!
Printing and reading back. A printed value is a document on one line, and the value that the document stands for is read
from it whenever the limit is no less than the depth of the value.
-/

namespace Caret.Json

open Syntax

variable {value : Json} {options : Options}

theorem chars_ne_nil (value : Json) : value.chars ≠ [] := by
  cases value with
  | null => simp [chars]
  | bool value => cases value <;> simp [chars]
  | number value =>
    obtain ⟨first, rest, same, _⟩ := (Strict.scalar_number value).lenient.head
    rw [chars, same]
    exact List.cons_ne_nil first rest
  | string value => simp [chars, quoted]
  | array items => simp [chars]
  | object members => simp [chars]

theorem lineFeed_notMem (value : Json) : '\n' ∉ value.chars :=
  fun inside => absurd (clean_chars value _ inside) (by decide)

theorem return_notMem (value : Json) : '\r' ∉ value.chars :=
  fun inside => absurd (clean_chars value _ inside) (by decide)

theorem tokens_text (value : Json) : (Input.ofText value.text).tokens = value.chars ++ ['\n'] := by
  rw [Input.tokens_eq_ahead, Input.ofText, text, String.toList_ofList]
  exact Input.ahead_ofChars_of_line (chars_ne_nil value) (lineFeed_notMem value) (return_notMem value)

theorem document_text (ordered : value.Ordered) (deep : value.depth ≤ options.maxDepth) :
    Document options (Input.ofText value.text).tokens value.nullified := by
  rw [tokens_text]
  have document : Document options ([] ++ value.chars ++ ['\n']) value.nullified :=
    .mk (List.forall_mem_nil _) (value_chars ordered deep) (by simp [Blanks, Text.isBlank_lineFeed])
  rwa [List.nil_append] at document

/-- A printed value is read back as the value with `null` for the numbers that have no literal, under either policy and
any limit that the value keeps; if all its numbers are finite, it is read back as it was, bit for bit. -/
theorem parse_text (ordered : value.Ordered) (deep : value.depth ≤ options.maxDepth) :
    parse value.text options = .ok value.nullified ∧ (value.Finite → parse value.text options = .ok value) := by
  have read : parse value.text options = .ok value.nullified := parse_of_document (document_text ordered deep)
  refine ⟨read, ?_⟩
  intro finite
  rw [read, nullified_of_finite finite]

/-- Two containers deep, with line breaks and a quote in strings and a number without a literal; and negative zero. -/
theorem parse_text_nested :
    parse (object [("\r\n", number (.zero true)), ("\"", array [number .nan, string "\n"])]).text ⟨.reject, 2⟩ =
        .ok (object [("\r\n", number (.zero true)), ("\"", array [null, string "\n"])]) ∧
      parse (number (.zero true)).text ⟨.lastWins, 0⟩ = .ok (number (.zero true)) := by
  have scalar : ∀ value ∈ [number (.zero true), number .nan, string "\n"], value.Ordered := by
    intro value member members part
    simp only [List.mem_cons, List.not_mem_nil, or_false] at member
    rcases member with rfl | rfl | rfl <;> cases part
  have inner : (array [number .nan, string "\n"]).Ordered :=
    ordered_array fun item member => scalar item (List.mem_cons_of_mem _ member)
  have ordered : (object [("\r\n", number (.zero true)), ("\"", array [number .nan, string "\n"])]).Ordered := by
    apply ordered_object
    · decide
    · intro member among
      simp only [List.mem_cons, List.not_mem_nil, or_false] at among
      rcases among with rfl | rfl
      · exact scalar _ List.mem_cons_self
      · exact inner
  have finite : (number (.zero true)).Finite := by
    intro amount part
    cases part
    rfl
  constructor
  · exact (parse_text ordered (by decide)).1
  · exact (parse_text (scalar _ List.mem_cons_self) (by decide)).2 finite

end Caret.Json
