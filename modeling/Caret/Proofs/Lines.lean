import Caret.Proofs.Cursor

/-!
Texts and their lines. A text on one line is its only piece, so its tokens are its characters and the end of the line.
No text has more than one token that is not one of its characters.
-/

namespace Caret

theorem Source.pieces_of_line {chars : List Char} (single : '\n' ∉ chars) : pieces chars = (chars, []) := by
  induction chars with
  | nil => rfl
  | cons char chars ih =>
    rw [List.mem_cons, not_or] at single
    have rest : pieces chars = (chars, []) := ih single.2
    calc
      pieces (char :: chars) = cut char (pieces chars) := rfl
      _ = (char :: chars, []) := by rw [rest, cut, if_neg (Ne.symm single.1)]

theorem Source.trimReturn_of_last {chars : List Char} (last : chars.getLast? ≠ some '\r') : trimReturn chars = chars :=
  if_neg last

section Line

variable {chars : List Char} (some : chars ≠ []) (single : '\n' ∉ chars) (bare : '\r' ∉ chars)

include some single bare

theorem Source.lines_of_line : (Source.ofChars chars).lines = #[chars.toArray] := by
  have kept : trimReturn chars = chars := trimReturn_of_last fun last => bare (List.mem_of_getLast? last)
  unfold ofChars
  rw [if_neg (by simpa using some), pieces_of_line single]
  simp [ofLines, kept]

theorem Input.ahead_ofChars_of_line : (ofChars chars).ahead = chars ++ ['\n'] := by
  simp [ofChars, ahead, Source.lines_of_line some single bare, Position.start]

end Line

/-- Every character is in a piece or cuts one off. -/
theorem Source.tokenCount_pieces (chars : List Char) :
    tokenCount (((pieces chars).1 :: (pieces chars).2).map List.toArray) = chars.length + 1 := by
  induction chars with
  | nil => rfl
  | cons char chars ih =>
    have next : pieces (char :: chars) = cut char (pieces chars) := rfl
    simp only [tokenCount, List.map_cons, List.foldr_cons, List.size_toArray] at ih ⊢
    rw [next, cut]
    split
    · simp only [List.map_cons, List.foldr_cons, List.size_toArray, List.length_nil, List.length_cons]
      omega
    · simp only [List.length_cons]
      omega

theorem Source.tokenCount_trimmed_le (pieces : List (List Char)) :
    tokenCount (pieces.map fun piece => (trimReturn piece).toArray) ≤ tokenCount (pieces.map List.toArray) := by
  induction pieces with
  | nil => exact Nat.le_refl 0
  | cons piece pieces ih =>
    have short : (trimReturn piece).length ≤ piece.length := by
      unfold trimReturn
      split <;> simp
    simp only [tokenCount, List.map_cons, List.foldr_cons, List.size_toArray] at ih ⊢
    omega

theorem Input.length_ahead_ofChars_le (chars : List Char) : (ofChars chars).ahead.length ≤ chars.length + 1 := by
  have size : (Source.ofChars chars).size ≤ chars.length + 1 := by
    unfold Source.ofChars
    split
    · exact Nat.zero_le _
    · rw [← Source.tokenCount_pieces]
      exact Source.tokenCount_trimmed_le _
  exact Nat.le_trans (length_ahead_le _) size

end Caret
