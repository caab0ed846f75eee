import Caret.Json.Grammar
import Caret.Proofs.Combinators
import Caret.Proofs.Json.Syntax

/-!
Strings in quotes. One character is read from one item of the syntax: three rules take turns, and where an item can be
taken just one of them takes it. A string then ends at the first quote that is no part of an item.
-/

namespace Caret.Json

open Caret.Parser Syntax

/-! ### Hexadecimal digits -/

theorem Syntax.Hex.value_lt {char : Char} {value : Nat} (hex : Hex char value) : value < 16 := by
  rcases hex with found | found <;> exact (List.getElem?_eq_some_iff.mp found).1

theorem Syntax.Hex.isHexDigit {char : Char} {value : Nat} (hex : Hex char value) :
    isHexDigit char = true ∧ hexDigitValue char = value := by
  have lower : ∀ value : Fin 16, lowerHex[value.val]?.all (fun char =>
      Json.isHexDigit char && hexDigitValue char == value) = true := by decide
  have upper : ∀ value : Fin 16, upperHex[value.val]?.all (fun char =>
      Json.isHexDigit char && hexDigitValue char == value) = true := by decide
  rcases hex with found | found
  · have read := lower ⟨value, (Hex.value_lt (.inl found))⟩
    simpa [found] using read
  · have read := upper ⟨value, (Hex.value_lt (.inr found))⟩
    simpa [found] using read

theorem hex_of_isHexDigit {char : Char} (hex : isHexDigit char = true) : Hex char (hexDigitValue char) := by
  have small : char.toNat < 128 := by
    simp only [isHexDigit, Char.isDigit, Bool.or_eq_true, Bool.and_eq_true, decide_eq_true_eq, Char.le_def,
      UInt32.le_iff_toNat_le] at hex
    change char.val.toNat < 128
    have bounds : ('9'.val.toNat < 128 ∧ 'f'.val.toNat < 128) ∧ 'F'.val.toNat < 128 := by decide
    omega
  have each : ∀ code : Fin 128, isHexDigit (Char.ofNat code.val) = true →
      lowerHex[hexDigitValue (Char.ofNat code.val)]? = some (Char.ofNat code.val) ∨
        upperHex[hexDigitValue (Char.ofNat code.val)]? = some (Char.ofNat code.val) := by decide
  have found := each ⟨char.toNat, small⟩
  rw [Char.ofNat_toNat] at found
  exact found hex

theorem hexValue_four (first second third fourth : Char) :
    hexValue [first, second, third, fourth] =
      ((hexDigitValue first * 16 + hexDigitValue second) * 16 + hexDigitValue third) * 16 + hexDigitValue fourth := by
  simp only [hexValue, List.foldl_cons, List.foldl_nil]
  omega

theorem decoded_charOfCode {code : Nat} (small : code < 0x110000) : Decoded code (charOfCode code) := by
  unfold charOfCode
  split
  · next valid =>
    rw [Char.ofNat, dif_pos valid]
    exact .inl rfl
  · next other =>
    simp only [Nat.isValidChar, not_or, not_and, Nat.not_lt] at other
    exact .inr ⟨other.1, by omega, rfl⟩

theorem charOfCode_of_decoded {code : Nat} {char : Char} (decoded : Decoded code char) : charOfCode code = char := by
  unfold charOfCode
  rcases decoded with same | ⟨low, high, rfl⟩
  · have valid : code.isValidChar := same ▸ char.valid
    rw [if_pos valid, ← same, Char.ofNat_toNat]
  · have other : ¬code.isValidChar := by
      simp only [Nat.isValidChar]
      omega
    rw [if_neg other]

/-! ### One character -/

section Items

variable {Ref : Type → Type} (ask : Ask Ref) (depths : Depths) (ahead : List Char)

theorem reads_shortEscape {letter char : Char} (known : (letter, char) ∈ escapes) :
    ((shortEscape (String.ofList ['\\', letter], char)).trace ask depths ahead).Reads Item ahead := by
  apply reads_mapTo ask depths ahead
  rw [String.toList_ofList]
  exact .escape known

theorem shortEscapes_eq :
    shortEscapes = escapes.tail.map fun (letter, char) => (String.ofList ['\\', letter], char) := rfl

theorem reads_escapedChar : (escapedChar.trace ask depths ahead).Reads Item ahead := by
  apply Trace.Reads.relabel
  apply reads_choice ask depths ahead
  have table : (shortEscape ("\\\"", '"') :: shortEscapes.map shortEscape : List (Parser Ref Char)) =
      escapes.map fun (letter, char) => shortEscape (String.ofList ['\\', letter], char) := rfl
  rw [table]
  intro parser member
  obtain ⟨⟨letter, char⟩, known, rfl⟩ := List.mem_map.mp member
  exact reads_shortEscape ask depths ahead known

theorem reads_hexDigits (count : Nat) :
    ((sequence (List.replicate count (satisfy isHexDigit "hex digit"))).trace ask depths ahead).Reads
      (fun word digits => word = digits ∧ digits.length = count ∧ ∀ digit ∈ digits, isHexDigit digit = true) ahead := by
  induction count generalizing ahead with
  | zero => exact .took (List.nil_append ahead) (by simp)
  | succ count ih =>
    rw [List.replicate_succ, trace_sequence_cons]
    apply (Trace.reads_satisfy _ _ ahead).bind
    intro word digit rest first
    apply (ih rest).map
    intro more digits others
    obtain ⟨rfl, hex⟩ := first
    obtain ⟨rfl, size, all⟩ := others
    exact ⟨rfl, congrArg (· + 1) size, List.forall_mem_cons.mpr ⟨hex, all⟩⟩

theorem exists_of_length_four {word : List Char} (size : word.length = 4) :
    ∃ first second third fourth, word = [first, second, third, fourth] := by
  rcases word with _ | ⟨first, _ | ⟨second, _ | ⟨third, _ | ⟨fourth, _ | ⟨fifth, rest⟩⟩⟩⟩⟩
  · simp at size
  · simp at size
  · simp at size
  · simp at size
  · exact ⟨first, second, third, fourth, rfl⟩
  · simp at size

theorem reads_unicodeChar : (unicodeChar.trace ask depths ahead).Reads Item ahead := by
  simp only [unicodeChar, trace_withLabel, trace_map, trace_keepRight, Trace.bind_assoc, Trace.map, trace_char]
  apply Trace.Reads.relabel
  apply (reads_char ask depths ahead '\\').bind
  intro first slash rest before
  apply (reads_char ask depths rest 'u').bind
  intro second letter rest after
  apply (reads_hexDigits ask depths rest 4).map
  intro word digits taken
  obtain ⟨rfl, rfl⟩ := before
  obtain ⟨rfl, rfl⟩ := after
  obtain ⟨rfl, size, all⟩ := taken
  obtain ⟨first, second, third, fourth, rfl⟩ := exists_of_length_four size
  simp only [List.mem_cons, List.not_mem_nil, or_false, forall_eq_or_imp, forall_eq] at all
  obtain ⟨hex1, hex2, hex3, hex4⟩ := all
  have hex1 := hex_of_isHexDigit hex1
  have hex2 := hex_of_isHexDigit hex2
  have hex3 := hex_of_isHexDigit hex3
  have hex4 := hex_of_isHexDigit hex4
  apply Item.code hex1 hex2 hex3 hex4
  rw [← hexValue_four]
  apply decoded_charOfCode
  rw [hexValue_four]
  have small := hex1.value_lt
  have small := hex2.value_lt
  have small := hex3.value_lt
  have small := hex4.value_lt
  omega

theorem reads_stringChar : (stringChar.trace ask depths ahead).Reads Item ahead := by
  have plain : (unescapedChar.trace ask depths ahead).Reads Item ahead := by
    apply (Trace.reads_satisfy _ _ ahead).mono
    intro word char taken
    obtain ⟨rfl, plain⟩ := taken
    simp only [Bool.and_eq_true, bne_iff_ne] at plain
    exact .plain plain.1 plain.2
  exact (plain.recover (reads_escapedChar ask depths ahead)).recover (reads_unicodeChar ask depths ahead)

theorem trace_stringChar {word : List Char} {char : Char} (item : Item word char) :
    stringChar.trace ask depths (word ++ ahead) = .took char ahead := by
  cases item with
  | plain unescaped unquoted =>
    simp [stringChar, unescapedChar, Rule.traceSatisfy, unescaped, unquoted]
  | escape known =>
    simp only [escapes, List.mem_cons, Prod.mk.injEq, List.not_mem_nil, or_false] at known
    rcases known with ⟨rfl, rfl⟩ | ⟨rfl, rfl⟩ | ⟨rfl, rfl⟩ | ⟨rfl, rfl⟩ | ⟨rfl, rfl⟩ | ⟨rfl, rfl⟩ | ⟨rfl, rfl⟩ |
      ⟨rfl, rfl⟩ <;>
      simp [stringChar, unescapedChar, escapedChar, shortEscapes_eq, escapes, trace_choice, shortEscape, trace_text,
        Rule.traceSatisfy, List.cons_prefix_cons]
  | code hex1 hex2 hex3 hex4 decoded =>
    have value := charOfCode_of_decoded decoded
    rw [← hex1.isHexDigit.2, ← hex2.isHexDigit.2, ← hex3.isHexDigit.2, ← hex4.isHexDigit.2, ← hexValue_four] at value
    simp [stringChar, unescapedChar, escapedChar, shortEscapes_eq, escapes, trace_choice, shortEscape, trace_text,
      unicodeChar, List.replicate, Rule.traceSatisfy, List.cons_prefix_cons, hex1.isHexDigit.1, hex2.isHexDigit.1,
      hex3.isHexDigit.1, hex4.isHexDigit.1, value]

end Items

/-! ### Whole strings -/

section Strings

variable {Ref : Type → Type} (ask : Ask Ref) (depths : Depths) (ahead : List Char)

theorem Syntax.Item.ne_nil {word : List Char} {char : Char} (item : Item word char) : word ≠ [] := by
  cases item <;> simp

theorem reads_stringChars : (stringChar.many.trace ask depths ahead).Reads Body ahead :=
  .many _ (reads_stringChar ask depths) (fun _ _ item => item.ne_nil) .nil (fun _ _ _ _ item more => .cons item more)
    ahead

/-- What no item is a front of is left by a character. -/
theorem stringChar_stops (ended : ∀ word char, Item word char → ¬word <+: ahead) :
    ∃ stop, stringChar.trace ask depths ahead = .stopped stop := by
  have reads := reads_stringChar ask depths ahead
  generalize stringChar.trace ask depths ahead = trace at reads
  cases reads with
  | took front item => exact absurd ⟨_, front⟩ (ended _ _ item)
  | stopped stop => exact ⟨stop, rfl⟩

theorem trace_stringChars {word chars : List Char} (body : Body word chars)
    (ended : ∀ word char, Item word char → ¬word <+: ahead) :
    stringChar.many.trace ask depths (word ++ ahead) = .took chars ahead := by
  induction body with
  | nil =>
    obtain ⟨stop, moved⟩ := stringChar_stops ask depths ahead ended
    exact Trace.many_of_stopped moved
  | @cons item word chars char first more ih =>
    have longer := List.length_pos_iff.mpr first.ne_nil
    have moved := trace_stringChar ask depths (word ++ ahead) first
    rw [List.append_assoc, trace_many, Trace.many_of_took moved (by simp; omega), ← trace_many, ih]
    rfl

/-- No item begins with a quote. -/
theorem Syntax.Item.not_quoted (word : List Char) (char : Char) (item : Item word char) : ¬word <+: '"' :: ahead := by
  rintro ⟨rest, front⟩
  cases item <;> simp_all

theorem reads_quotedString : (quotedString.trace ask depths ahead).Reads Quoted ahead := by
  simp only [quotedString, trace_withLabel, trace_between, manyChars, trace_map, Trace.map, Trace.bind_assoc,
    Trace.bind_took]
  apply Trace.Reads.relabel
  apply ((reads_char ask depths ahead '"').relabel _).bind
  intro first quote rest before
  apply (reads_stringChars ask depths rest).bind
  intro word chars rest body
  apply ((reads_char ask depths rest '"').relabel _).map
  intro last closing after
  obtain ⟨rfl, rfl⟩ := before
  obtain ⟨rfl, rfl⟩ := after
  exact .body body

theorem trace_quotedString {word : List Char} {text : String} (quoted : Quoted word text) :
    quotedString.trace ask depths (word ++ ahead) = .took text ahead := by
  obtain ⟨body⟩ := quoted
  have inside := trace_stringChars ask depths ('"' :: ahead) body (Item.not_quoted ahead)
  simp [quotedString, manyChars, Rule.traceSatisfy, inside, -trace_many]

end Strings

end Caret.Json
