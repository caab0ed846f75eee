import Caret.Parser.Characters
import Caret.Proofs.Agreement

/-!
Parsers move forward. Positions are ordered by their lines and then by their columns, and every token leads to a later
one. Tokens also lead from proper cursors to proper ones: to places on a line, or just past it, or to the one place past
the last line. What a parser leaves is reached by tokens, whatever the parser is built from, so it keeps all of that.
-/

namespace Caret

namespace Position

instance : LE Position :=
  ⟨fun first second => first.line < second.line ∨ first.line = second.line ∧ first.column ≤ second.column⟩

instance : LT Position :=
  ⟨fun first second => first.line < second.line ∨ first.line = second.line ∧ first.column < second.column⟩

theorem le_iff {first second : Position} :
    first ≤ second ↔ first.line < second.line ∨ first.line = second.line ∧ first.column ≤ second.column :=
  Iff.rfl

theorem lt_iff {first second : Position} :
    first < second ↔ first.line < second.line ∨ first.line = second.line ∧ first.column < second.column :=
  Iff.rfl

theorem le_refl (position : Position) : position ≤ position :=
  .inr ⟨rfl, Nat.le_refl position.column⟩

theorem le_of_lt {first second : Position} (less : first < second) : first ≤ second := by
  rw [lt_iff] at less
  rw [le_iff]
  omega

theorem lt_of_lt_of_le {first second third : Position} (front : first < second) (back : second ≤ third) :
    first < third := by
  rw [le_iff] at back
  rw [lt_iff] at front ⊢
  omega

theorem lt_nextColumn (position : Position) : position < position.nextColumn :=
  .inr ⟨rfl, Nat.lt_succ_self position.column⟩

theorem lt_nextLine (position : Position) : position < position.nextLine :=
  .inl (Nat.lt_succ_self position.line)

end Position

namespace Input

/-- On one of the lines and no further than its end, or at the start of what follows the last line. -/
structure Proper (input : Input) : Prop where
  line : input.position.line ≤ input.lineCount
  column : ∀ line, input.source.lines[input.position.line]? = some line → input.position.column ≤ line.size
  finished : input.atEnd = true → input.position.column = 0

theorem proper_ofText (text : String) : (ofText text).Proper :=
  ⟨Nat.zero_le _, fun line _ => Nat.zero_le line.size, fun _ => rfl⟩

/-- At the end there is no line, and before it there is one. -/
theorem atEnd_eq_true {input : Input} : input.atEnd = true ↔ input.source.lines[input.position.line]? = none := by
  rw [atEnd, lineCount, decide_eq_true_eq, Array.getElem?_eq_none_iff]

theorem atEnd_of_next? {input : Input} (taken : input.next? = none) : input.atEnd = true := by
  unfold next? at taken
  split at taken
  · next absent => exact atEnd_eq_true.mpr absent
  · split at taken <;> cases taken

section Tokens

variable {input rest : Input} {token : Char}

theorem position_lt_of_next? (taken : input.next? = some (token, rest)) : input.position < rest.position := by
  unfold next? at taken
  split at taken
  · cases taken
  · split at taken
    · cases taken
      exact input.position.lt_nextColumn
    · cases taken
      exact input.position.lt_nextLine

/-- The token at the end of a line is a line feed. -/
theorem eq_lineFeed_of_next? (taken : input.next? = some (token, rest))
    (last : input.position.column = input.line.size) : token = '\n' := by
  unfold next? at taken
  split at taken
  · cases taken
  · next chars found =>
    rw [line, found, Option.getD_some] at last
    rw [Array.getElem?_eq_none (Nat.le_of_eq last.symm)] at taken
    cases taken
    rfl

theorem Proper.next? (taken : input.next? = some (token, rest)) : rest.Proper := by
  unfold Input.next? at taken
  split at taken
  · cases taken
  · next chars found =>
    obtain ⟨within, -⟩ := Array.getElem?_eq_some_iff.mp found
    split at taken
    · next char under =>
      obtain ⟨room, -⟩ := Array.getElem?_eq_some_iff.mp under
      cases taken
      refine ⟨Nat.le_of_lt within, ?_, ?_⟩
      · intro line same
        change input.source.lines[input.position.line]? = some line at same
        obtain rfl : chars = line := Option.some.inj (found.symm.trans same)
        exact room
      · intro ended
        have absent : input.source.lines[input.position.line]? = none := atEnd_eq_true.mp ended
        exact absurd (found.symm.trans absent) nofun
    · cases taken
      exact ⟨within, fun line _ => Nat.zero_le line.size, fun _ => rfl⟩

namespace Leads

variable {first second : Input}

theorem proper (leads : first.Leads second) (proper : first.Proper) : second.Proper := by
  induction leads with
  | here => exact proper
  | step taken _ ih => exact ih (.next? taken)

theorem position_le (leads : first.Leads second) : first.position ≤ second.position := by
  induction leads with
  | here input => exact input.position.le_refl
  | step taken _ ih => exact Position.le_of_lt (Position.lt_of_lt_of_le (position_lt_of_next? taken) ih)

theorem position_lt (leads : first.Leads second) (shorter : second.ahead.length < first.ahead.length) :
    first.position < second.position := by
  cases leads with
  | here => exact absurd shorter (Nat.lt_irrefl _)
  | step taken further => exact Position.lt_of_lt_of_le (position_lt_of_next? taken) further.position_le

end Leads

end Tokens

end Input

namespace Parser

variable {Ref : Type → Type} {α : Type}

theorem leads_of_accept {parser : Parser Ref α} {wiring : Wiring Ref} {input rest : Input} {gauges : Gauges} {value : α}
    (accepted : (parser.parse wiring input gauges).reply = .accept value rest) : input.Leads rest :=
  Rule.leads_of_accept accepted

/-- From a cursor that a text leads to, what a parser leaves is a later cursor on the same lines: tokens lead to it, so it
is proper, and its position is no earlier. -/
theorem parse_forward (parser : Parser Ref α) (wiring : Wiring Ref) (gauges : Gauges) {text : String}
    {input rest : Input} {value : α} (reached : (Input.ofText text).Leads input)
    (accepted : (parser.parse wiring input gauges).reply = .accept value rest) :
    rest.source = input.source ∧ input.Leads rest ∧ rest.Proper ∧ input.position ≤ rest.position := by
  have leads : input.Leads rest := leads_of_accept accepted
  have proper : input.Proper := reached.proper (Input.proper_ofText text)
  exact ⟨leads.source, leads, leads.proper proper, leads.position_le⟩

/-- A digit tells how many characters are to come, line ends included; it is read on the second line. -/
theorem parse_forward_counted :
    let wiring : Wiring (fun _ => Empty) := ⟨nofun, 0⟩
    let counted : Parser (fun _ => Empty) (List Char) :=
      digit.bind fun count => sequence (List.replicate (count.toNat - '0'.toNat) (anyOf 'x' ['\n']))
    let input := (Input.ofText "a\n3x\r\nxy").advance 2
    let rest := input.advance 4
    (counted.parse wiring input []).reply = .accept ['x', '\n', 'x'] rest ∧ rest.position = ⟨2, 1⟩ ∧
      rest.source = input.source ∧ input.Leads rest ∧ rest.Proper ∧ input.position ≤ rest.position := by
  intro wiring counted input rest
  have accepted : (counted.parse wiring input []).reply = .accept ['x', '\n', 'x'] rest := rfl
  exact ⟨accepted, rfl, parse_forward counted wiring [] (Input.leads_advance _ 2) accepted⟩

end Parser

end Caret
