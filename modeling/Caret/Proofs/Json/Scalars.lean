import Caret.Proofs.Json.Scan
import Caret.Proofs.Json.Strings

/-!
Values that are no containers. The rules for them take turns, and what one of them takes the others before it do not, so
together they take the words of the syntax and nothing else.
-/

namespace Caret.Json

open Caret.Parser Syntax

def scalarRule {Ref : Type → Type} : Parser Ref Json :=
  choice nullRule [boolRule, numberRule, stringRule]

/-! ### Words of scalars -/

theorem Syntax.Numeral.head {word : List Char} (numeral : Numeral word) :
    ∃ first rest, word = first :: rest ∧ (first = '-' ∨ first.isDigit = true) := by
  obtain ⟨signed, counted, divided, scaled⟩ := numeral
  obtain ⟨first, rest, rfl, digit⟩ := counted.head_digit
  cases signed with
  | none => exact ⟨first, _, rfl, .inr digit⟩
  | minus => exact ⟨'-', _, rfl, .inl rfl⟩

/-- What a scalar begins with. -/
theorem Syntax.Scalar.head {word : List Char} {value : Json} (scalar : Scalar word value) :
    ∃ first rest, word = first :: rest ∧ (first ∈ ['n', 't', 'f', '-', '"'] ∨ first.isDigit = Bool.true) := by
  cases scalar with
  | null => exact ⟨_, _, rfl, .inl (by decide)⟩
  | true => exact ⟨_, _, rfl, .inl (by decide)⟩
  | false => exact ⟨_, _, rfl, .inl (by decide)⟩
  | number numeral read finite =>
    obtain ⟨first, rest, same, minus | digit⟩ := numeral.head
    · exact ⟨first, rest, same, .inl (by simp [minus])⟩
    · exact ⟨first, rest, same, .inr digit⟩
  | string quoted =>
    obtain ⟨body⟩ := quoted
    exact ⟨_, _, rfl, .inl (by decide)⟩

/-! ### Taking scalars -/

section Taking

variable {Ref : Type → Type} (ask : Ask Ref) (depths : Depths) (ahead : List Char)

theorem reads_literal :
    (literal.trace ask depths ahead).Reads
      (fun word found => ∃ marker, found.Proper ∧ Literal.Marks marker ∧ found.spelled marker = word) ahead := by
  rw [trace_literal]
  split
  · next found rest taken =>
    obtain ⟨marker, proper, marked, front⟩ := Scan.spelled_of_literal taken
    exact .took front ⟨marker, proper, marked, rfl⟩
  · exact .stopped _

theorem reads_numberRule : (numberRule.trace ask depths ahead).Reads Scalar ahead := by
  simp only [numberRule, trace_withLabel, trace_tryMap]
  apply Trace.Reads.relabel
  apply (reads_literal ask depths ahead).bind
  intro word found rest taken
  obtain ⟨marker, proper, marked, rfl⟩ := taken
  unfold numberOf
  dsimp only
  split
  · next finite =>
    exact .took (List.nil_append rest) (by
      rw [List.append_nil]
      exact .number (numeral_spelled proper marked) (Literal.ofText?_spelled proper marked) finite)
  · exact .stopped _

theorem trace_numberRule {word : List Char} {value : Double} (numeral : Numeral word)
    (read : Double.ofText? (String.ofList word) = some value) (finite : value.isFinite = true)
    (edge : Literal.Edge ahead) : numberRule.trace ask depths (word ++ ahead) = .took (.number value) ahead := by
  obtain ⟨found, marker, proper, marked, rfl⟩ := spelled_of_numeral numeral
  obtain rfl : found.value = value := by
    rw [Literal.ofText?_spelled proper marked] at read
    exact Option.some.inj read
  simp [numberRule, trace_literal, Scan.literal_spelled proper marked edge, numberOf, finite, Rule.traceRefined]

theorem reads_scalarRule : (scalarRule.trace ask depths ahead).Reads Scalar ahead := by
  have null : (nullRule.trace ask depths ahead).Reads Scalar ahead := (reads_mapTo ask depths ahead .null).relabel _
  have bool : (boolRule.trace ask depths ahead).Reads Scalar ahead :=
    ((reads_mapTo ask depths ahead .true).recover (reads_mapTo ask depths ahead .false)).relabel _
  have string : (stringRule.trace ask depths ahead).Reads Scalar ahead :=
    ((reads_quotedString ask depths ahead).map fun word text quoted => .string quoted).relabel _
  apply reads_choice ask depths ahead
  simp only [List.mem_cons, List.not_mem_nil, or_false, forall_eq_or_imp, forall_eq]
  exact ⟨null, bool, reads_numberRule ask depths ahead, string⟩

theorem trace_scalarRule {word : List Char} {value : Json} (scalar : Scalar word value) (edge : Literal.Edge ahead) :
    scalarRule.trace ask depths (word ++ ahead) = .took value ahead := by
  have null : "null".toList = ['n', 'u', 'l', 'l'] := rfl
  have true : "true".toList = ['t', 'r', 'u', 'e'] := rfl
  have false : "false".toList = ['f', 'a', 'l', 's', 'e'] := rfl
  cases scalar with
  | null => simp [scalarRule, trace_choice, nullRule, trace_text, null]
  | true => simp [scalarRule, trace_choice, nullRule, boolRule, trace_text, null, true, List.cons_prefix_cons]
  | false => simp [scalarRule, trace_choice, nullRule, boolRule, trace_text, null, true, false, List.cons_prefix_cons]
  | number numeral read finite =>
    have taken := trace_numberRule ask depths ahead numeral read finite edge
    obtain ⟨first, rest, rfl, begins⟩ := numeral.head
    have letters : ∀ letter ∈ ['n', 't', 'f'], ¬(letter = '-' ∨ letter.isDigit = Bool.true) :=
      forall_mem_of_all (by decide)
    have other : ∀ letter ∈ ['n', 't', 'f'], letter ≠ first := by
      intro letter member same
      rw [← same] at begins
      exact letters letter member begins
    simp only [List.mem_cons, List.not_mem_nil, or_false, forall_eq_or_imp, forall_eq] at other
    simp only [List.cons_append] at taken
    simp [scalarRule, trace_choice, nullRule, boolRule, trace_text, null, true, false, List.cons_prefix_cons,
      other.1, other.2.1, other.2.2, taken]
  | string quoted =>
    have taken := trace_quotedString ask depths ahead quoted
    obtain ⟨body⟩ := quoted
    simp only [List.cons_append, List.append_assoc, List.nil_append] at taken
    simp [scalarRule, trace_choice, nullRule, boolRule, numberRule, trace_literal, Scan.literal, Scan.minus, Scan.whole,
      stringRule, trace_text, null, true, false, List.cons_prefix_cons, taken]

/-- No scalar is taken where something else begins. -/
theorem scalarRule_stops (token : Char) (other : token ∉ ['n', 't', 'f', '-', '"'])
    (nodigit : token.isDigit = false) :
    ∃ stop, scalarRule.trace ask depths (token :: ahead) = .stopped stop := by
  have reads := reads_scalarRule ask depths (token :: ahead)
  generalize scalarRule.trace ask depths (token :: ahead) = trace at reads
  cases reads with
  | took front scalar =>
    obtain ⟨first, rest, rfl, begins⟩ := scalar.head
    obtain rfl : first = token := (List.cons.inj front).1
    simp [other, nodigit] at begins
  | stopped stop => exact ⟨stop, rfl⟩

end Taking

end Caret.Json
