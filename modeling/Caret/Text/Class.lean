/-!
Classes of characters over all of Unicode, as ranges of code points: blanks, which separate tokens, and control
characters, which never stand in printed text.
-/

namespace Caret.Text

abbrev Ranges := List (Nat × Nat)

def Ranges.has (ranges : Ranges) (char : Char) : Bool :=
  ranges.any fun (first, last) => first ≤ char.toNat && char.toNat ≤ last

def blanks : Ranges :=
  [(0x09, 0x0d), (0x20, 0x20), (0x85, 0x85), (0xa0, 0xa0), (0x1680, 0x1680), (0x2000, 0x200a), (0x2028, 0x2029),
    (0x202f, 0x202f), (0x205f, 0x205f), (0x3000, 0x3000)]

def controls : Ranges :=
  [(0x00, 0x1f), (0x7f, 0x9f)]

/-- The characters with the Unicode property `White_Space`. -/
def isBlank (char : Char) : Bool :=
  blanks.has char

/-- The characters of general category `Cc`. -/
def isControl (char : Char) : Bool :=
  controls.has char

theorem isControl_iff {char : Char} :
    isControl char = true ↔ char.toNat ≤ 0x1f ∨ 0x7f ≤ char.toNat ∧ char.toNat ≤ 0x9f := by
  simp [isControl, controls, Ranges.has]

theorem isBlank_lineFeed : isBlank '\n' = true := by decide

end Caret.Text
