import Caret.Proofs.Json.RoundTrip
import Caret.Proofs.Json.Strict

/-!
Printed values for other readers. A printed value is a strict document, and it is the shortest of its kind: it is one
line, and what is blank in it stands in a string. The tree of the document is the value itself with `null` for the
numbers that have no literal, so its objects name their members in order.
-/

namespace Caret.Json

/-! ### Outside strings -/

namespace Brackets

open Syntax

def outside (brackets : Brackets) : List Char → List Char
  | [] => []
  | char :: word =>
    if brackets.mode = .plain then char :: outside (brackets.step char) word else outside (brackets.step char) word

theorem outside_append (brackets : Brackets) (word more : List Char) :
    brackets.outside (word ++ more) = brackets.outside word ++ (brackets.through word).outside more := by
  induction word generalizing brackets with
  | nil => rfl
  | cons char word ih =>
    rw [List.cons_append, outside, outside, through_cons, ih]
    split <;> rfl

theorem outside_item {brackets : Brackets} {word : List Char} {char : Char} (inside : brackets.mode = .quoted)
    (item : Item word char) : brackets.outside word = [] := by
  obtain ⟨mode, opened, peak⟩ := brackets
  obtain rfl : mode = .quoted := inside
  cases item with
  | plain unescaped unquoted => simp [outside]
  | escape known => simp [outside, step]
  | code hex1 hex2 hex3 hex4 decoded =>
    simp [outside, step, unquoted_of_hex hex1, unquoted_of_hex hex2, unquoted_of_hex hex3]

theorem outside_body {brackets : Brackets} {word chars : List Char} (inside : brackets.mode = .quoted)
    (body : Body word chars) : brackets.outside word = [] := by
  induction body with
  | nil => rfl
  | cons first more ih => rw [outside_append, outside_item inside first, through_item inside first, ih, List.nil_append]

/-- A word that ends outside strings if it begins there, and has nothing blank outside its own. -/
def Compact (word : List Char) : Prop :=
  ∀ brackets : Brackets, brackets.mode = .plain →
    (brackets.through word).mode = .plain ∧ ∀ char ∈ brackets.outside word, Text.isBlank char = false

theorem Compact.nil : Compact [] :=
  fun _ plain => ⟨plain, List.forall_mem_nil _⟩

theorem Compact.append {front back : List Char} (first : Compact front) (second : Compact back) :
    Compact (front ++ back) := by
  intro brackets plain
  obtain ⟨middle, before⟩ := first brackets plain
  obtain ⟨last, after⟩ := second (brackets.through front) middle
  rw [through_append, outside_append]
  exact ⟨last, List.forall_mem_append.mpr ⟨before, after⟩⟩

theorem compact_single {char : Char} (unquoted : char ≠ '"') (solid : Text.isBlank char = false) : Compact [char] := by
  intro brackets plain
  constructor
  · simp only [through, List.foldl_cons, List.foldl_nil, step, plain, unquoted, if_false]
    split
    · rfl
    · split
      · rfl
      · exact plain
  · simpa [outside, plain] using solid

theorem compact_of_solid {word : List Char} (each : ∀ char ∈ word, char ≠ '"' ∧ Text.isBlank char = false) :
    Compact word := by
  induction word with
  | nil => exact .nil
  | cons char word ih =>
    obtain ⟨⟨unquoted, solid⟩, others⟩ := List.forall_mem_cons.mp each
    exact (compact_single unquoted solid).append (ih others)

/-- Whatever stands between the quotes. -/
theorem compact_quoted {word : List Char} {text : String} (quoted : Quoted word text) : Compact word := by
  obtain ⟨body⟩ := quoted
  intro brackets plain
  have enter : brackets.step '"' = { brackets with mode := .quoted } := by simp [step, plain]
  rw [through_cons, through_append, outside, if_pos plain, outside_append, enter, through_body rfl body,
    outside_body rfl body]
  have solid : Text.isBlank '"' = false := by decide
  constructor
  · simp [through, step]
  · simpa [outside] using solid

theorem compact_numeral {word : List Char} (numeral : Numeral word) : Compact word := by
  apply compact_of_solid
  intro char inside
  have marks : ∀ char ∈ ['-', '+', '.', 'e', 'E'], char ≠ '"' ∧ Text.isBlank char = false :=
    forall_mem_of_all (by decide)
  rcases numeral.mem inside with digit | mark
  · refine ⟨ne_of_accepts digit (by decide), Bool.eq_false_iff.mpr fun blank => ?_⟩
    rw [(edge_of_isBlank blank).1] at digit
    exact absurd digit (by decide)
  · exact marks char mark

theorem compact_chars (value : Json) : Compact value.chars := by
  have closed : Composes Compact :=
    { nil := .nil
      append := .append
      marks := by
        have all : ∀ mark ∈ [',', ':', '[', ']', '\x7b', '\x7d'], mark ≠ '"' ∧ Text.isBlank mark = false :=
          forall_mem_of_all (by decide)
        exact fun mark known => compact_single (all mark known).1 (all mark known).2
      null := compact_of_solid (forall_mem_of_all (by decide))
      bools := fun value => by
        cases value <;> exact compact_of_solid (forall_mem_of_all (by decide))
      numbers := fun finite => compact_numeral (Double.numeral_chars finite)
      strings := fun text => compact_quoted (Strict.quoted_quoted text).lenient }
  exact closed.chars value

end Brackets

/-! ### Printed values -/

theorem Strict.document_text (value : Json) : Document value.text.toList value.nullified := by
  rw [text, String.toList_ofList]
  exact ⟨value.depth, spaced_of_element (written_chars (Nat.le_refl _))⟩

theorem lineCount_text (value : Json) : (Input.ofText value.text).lineCount = 1 := by
  have lines := Source.lines_of_line (chars_ne_nil value) (lineFeed_notMem value) (return_notMem value)
  rw [Input.lineCount, Input.ofText, text, String.toList_ofList, Input.ofChars, lines]
  rfl

/-- A printed value is a strict document that spells one tree, in which the members of every object stand in the order of
their names, each name once. It has no control character at all and nothing blank outside strings, and is one line. -/
theorem text_strict {value : Json} (ordered : value.Ordered) :
    Strict.Document value.text.toList value.nullified ∧
      (∀ tree, Strict.Document value.text.toList tree → tree.Ordered) ∧
      (∀ char ∈ value.text.toList, 0x1f < char.toNat ∧ ¬(0x7f ≤ char.toNat ∧ char.toNat ≤ 0x9f)) ∧
      (∀ char ∈ Brackets.outside {} value.text.toList, Text.isBlank char = false) ∧
      (Input.ofText value.text).lineCount = 1 := by
  refine ⟨Strict.document_text value, ?_, ?_, ?_, lineCount_text value⟩
  · intro tree document
    rw [document.unique (Strict.document_text value)]
    exact ordered.nullified
  · intro char inside
    rw [text, String.toList_ofList] at inside
    have visible := clean_chars value char inside
    rw [Bool.eq_false_iff, ne_eq, Text.isControl_iff] at visible
    omega
  · rw [text, String.toList_ofList]
    exact (Brackets.compact_chars value {} rfl).2

/-- A name with a line break and an unprintable character, a blank that is kept, and a number without a literal. -/
theorem text_strict_nested :
    Strict.Document (object [("\n\x7f", array [number .nan]), ("a b", array [])]).text.toList
        (object [("\n\x7f", array [null]), ("a b", array [])]) ∧
      (Input.ofText (object [("\n\x7f", array [number .nan]), ("a b", array [])]).text).lineCount = 1 := by
  have scalar : (number .nan).Ordered := fun _ part => nomatch part
  have ordered : (object [("\n\x7f", array [number .nan]), ("a b", array [])]).Ordered := by
    apply ordered_object
    · decide
    · intro member among
      simp only [List.mem_cons, List.not_mem_nil, or_false] at among
      rcases among with rfl | rfl
      · exact ordered_array (by simpa using scalar)
      · exact ordered_array (List.forall_mem_nil _)
  obtain ⟨document, -, -, -, line⟩ := text_strict ordered
  exact ⟨document, line⟩

end Caret.Json
