import Caret.Proofs.Endings
import Caret.Proofs.Forward

/-!
The tokens of a text in order. From the start a cursor takes the characters of each line and a line feed after them, and
then stays where it is. After the tokens of the first lines and some characters more it stands on the line that comes
next, in the column of that many characters. So the tokens that were taken settle the position, and the position settles
how many they are.
-/

namespace Caret

theorem tokenCount_append (first second : List Line) :
    tokenCount (first ++ second) = tokenCount first + tokenCount second := by
  induction first with
  | nil => simp [tokenCount]
  | cons line first ih =>
    simp only [tokenCount, List.cons_append, List.foldr_cons] at ih ⊢
    omega

namespace Input

/-- Where no token is left, a cursor goes no further. -/
theorem advance_of_none {input : Input} (ended : input.next? = none) (count : Nat) : input.advance count = input := by
  cases count with
  | zero => rfl
  | succ count => rw [advance, ended]

theorem advance_add (input : Input) (first second : Nat) :
    input.advance (first + second) = (input.advance first).advance second := by
  induction first generalizing input with
  | zero => rw [Nat.zero_add, advance]
  | succ first ih =>
    rw [Nat.succ_add, advance, advance]
    cases taken : input.next? with
    | none => exact (advance_of_none taken second).symm
    | some next => exact ih next.2

theorem advance_succ_of_next? {input rest : Input} {token : Char} {count : Nat}
    (taken : (input.advance count).next? = some (token, rest)) : input.advance (count + 1) = rest := by
  rw [advance_add, advance, taken]
  rfl

/-! ### Along the lines -/

section Lines

variable {source : Source} {row : Line} {index : Nat} (found : source.lines[index]? = some row)

include found

theorem next?_of_column {column : Nat} (inside : column < row.size) :
    (⟨source, ⟨index, column⟩⟩ : Input).next? = some (row[column], ⟨source, ⟨index, column + 1⟩⟩) := by
  simp [next?, found, inside, moveTo, Position.nextColumn]

theorem next?_of_end :
    (⟨source, ⟨index, row.size⟩⟩ : Input).next? = some ('\n', ⟨source, ⟨index + 1, 0⟩⟩) := by
  simp [next?, found, moveTo, Position.nextLine]

theorem advance_column {column count : Nat} (fits : column + count ≤ row.size) :
    (⟨source, ⟨index, column⟩⟩ : Input).advance count = ⟨source, ⟨index, column + count⟩⟩ := by
  induction count generalizing column with
  | zero => rfl
  | succ count ih =>
    rw [advance, next?_of_column found (by omega)]
    have onward := @ih (column + 1) (by omega)
    rwa [Nat.add_right_comm] at onward

/-- The characters of a line and the line feed lead to the start of the next line. -/
theorem advance_line : (⟨source, ⟨index, 0⟩⟩ : Input).advance (row.size + 1) = ⟨source, ⟨index + 1, 0⟩⟩ := by
  rw [advance_add, advance_column found (Nat.le_of_eq (Nat.zero_add _)), Nat.zero_add, advance, next?_of_end found]
  rfl

/-- The token in a column of a line, its end included. -/
theorem next?_of_tokens {column : Nat} (inside : column ≤ row.size) :
    ∃ token rest, row.tokens[column]? = some token ∧
      (⟨source, ⟨index, column⟩⟩ : Input).next? = some (token, rest) := by
  rcases Nat.lt_or_eq_of_le inside with before | rfl
  · have among : row.tokens[column]? = some row[column] := by
      rw [Line.tokens, List.getElem?_append_left (by simpa using before)]
      simp [before]
    exact ⟨row[column], _, among, next?_of_column found before⟩
  · exact ⟨'\n', _, by simp [Line.tokens], next?_of_end found⟩

end Lines

/-- The tokens of the first lines lead to the start of the line after them. -/
theorem advance_lines (source : Source) {index : Nat} (within : index ≤ source.lines.size) :
    (⟨source, Position.start⟩ : Input).advance (tokenCount (source.lines.toList.take index)) =
      ⟨source, ⟨index, 0⟩⟩ := by
  induction index with
  | zero => rfl
  | succ index ih =>
    have found : source.lines[index]? = some source.lines[index] := Array.getElem?_eq_getElem within
    have size : tokenCount (source.lines.toList.take (index + 1)) =
        tokenCount (source.lines.toList.take index) + (source.lines[index].size + 1) := by
      rw [List.take_succ_eq_append_getElem within, tokenCount_append]
      rfl
    calc
      (⟨source, Position.start⟩ : Input).advance (tokenCount (source.lines.toList.take (index + 1)))
      _ = ((⟨source, Position.start⟩ : Input).advance (tokenCount (source.lines.toList.take index))).advance
          (source.lines[index].size + 1) := by rw [size, advance_add]
      _ = (⟨source, ⟨index, 0⟩⟩ : Input).advance (source.lines[index].size + 1) := by rw [ih (Nat.le_of_succ_le within)]
      _ = ⟨source, ⟨index + 1, 0⟩⟩ := advance_line found

theorem advance_index {source : Source} {line : Line} {index column : Nat} (found : source.lines[index]? = some line)
    (fits : column ≤ line.size) :
    (⟨source, Position.start⟩ : Input).advance (tokenCount (source.lines.toList.take index) + column) =
      ⟨source, ⟨index, column⟩⟩ := by
  obtain ⟨within, -⟩ := Array.getElem?_eq_some_iff.mp found
  rw [advance_add, advance_lines source (Nat.le_of_lt within), advance_column found (by omega), Nat.zero_add]

/-! ### How many tokens were taken -/

section Counts

variable {input : Input} {first second : Nat}

theorem length_ahead_advance (input : Input) (count : Nat) :
    (input.advance count).ahead.length = input.ahead.length - count := by
  rw [ahead_advance, List.length_drop]

theorem position_advance_lt (inside : first < input.ahead.length) :
    (input.advance first).position < (input.advance (first + 1)).position := by
  cases taken : (input.advance first).next? with
  | none =>
    have ended := congrArg List.length (next?_eq_none.mp taken)
    rw [length_ahead_advance, List.length_nil] at ended
    omega
  | some next =>
    rw [advance_succ_of_next? taken]
    exact position_lt_of_next? taken

theorem position_advance_add {more : Nat} (inside : first + more ≤ input.ahead.length) :
    (input.advance (first + more)).position = (input.advance first).position ↔ more = 0 := by
  rw [advance_add, (leads_advance (input.advance first) more).position_eq_iff, length_ahead_advance,
    length_ahead_advance]
  omega

theorem position_advance_eq_iff (inside : first ≤ input.ahead.length) (inside' : second ≤ input.ahead.length) :
    (input.advance first).position = (input.advance second).position ↔ first = second := by
  -- One of the two cursors leads to the other one.
  rcases Nat.le_total first second with ordered | ordered
  · obtain ⟨more, rfl⟩ := Nat.exists_eq_add_of_le ordered
    rw [eq_comm, position_advance_add inside']
    omega
  · obtain ⟨more, rfl⟩ := Nat.exists_eq_add_of_le ordered
    rw [position_advance_add inside]
    omega

theorem Leads.exists_advance {place : Input} (leads : input.Leads place) :
    ∃ count ≤ input.ahead.length, place = input.advance count :=
  ⟨_, Nat.sub_le _ _, leads.eq_advance⟩

end Counts

/-- The tokens of a text are those of its lines, in order and each once: the characters of a line, and a line feed after
them. Once they are taken, the cursor stays where it is and finds nothing. Before the token in a column of a line, and
before the line feed at its end, the cursor stands at that line and column; every token leads to a later position; and
of the cursors that are reached from the start, two have one position just when as many tokens were taken. -/
theorem enumerated_ofText (text : String) :
    let start := ofText text
    let lines := start.source.lines.toList
    (∀ count, start.take count = (lines.flatMap Line.tokens).take count) ∧
      (∀ count, tokenCount lines ≤ count →
        (start.advance count).next? = none ∧ start.advance count = start.advance (tokenCount lines)) ∧
      (∀ index line column, lines[index]? = some line → column ≤ line.size →
        let before := tokenCount (lines.take index) + column
        (start.advance before).position = ⟨index, column⟩ ∧
          ∃ token, line.tokens[column]? = some token ∧
            (start.advance before).next? = some (token, start.advance (before + 1))) ∧
      (∀ count < tokenCount lines, (start.advance count).position < (start.advance (count + 1)).position) ∧
      (∀ place, start.Leads place → ∃ count ≤ tokenCount lines, place = start.advance count) ∧
      ∀ first ≤ tokenCount lines, ∀ second ≤ tokenCount lines,
        (start.advance first).position = (start.advance second).position ↔ first = second := by
  intro start lines
  have whole : start.ahead = lines.flatMap Line.tokens := ahead_start start.source
  have size : start.ahead.length = tokenCount lines := by rw [whole, length_flatMap_tokens]
  have ended : ∀ count, tokenCount lines ≤ count → (start.advance count).next? = none := by
    intro count enough
    rw [next?_eq_none, ahead_advance]
    exact List.drop_eq_nil_of_le (size ▸ enough)
  refine ⟨?_, ?_, ?_, ?_, ?_, ?_⟩
  · intro count
    rw [take_eq, whole]
  · intro count enough
    obtain ⟨more, rfl⟩ := Nat.exists_eq_add_of_le enough
    exact ⟨ended _ enough, by rw [advance_add, advance_of_none (ended _ (Nat.le_refl _))]⟩
  · intro index line column found inside before
    have found : start.source.lines[index]? = some line := by simpa [lines] using found
    have place : start.advance before = ⟨start.source, ⟨index, column⟩⟩ := advance_index found inside
    obtain ⟨token, rest, among, taken⟩ := next?_of_tokens found inside
    rw [← place] at taken
    exact ⟨by rw [place], token, among, by rw [taken, advance_succ_of_next? taken]⟩
  · exact fun count inside => position_advance_lt (size ▸ inside)
  · exact fun place leads => size ▸ leads.exists_advance
  · exact fun first inside second inside' => position_advance_eq_iff (size ▸ inside) (size ▸ inside')

end Input

end Caret
