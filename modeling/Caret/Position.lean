import Caret.Text.Shown

/-!
Places in a text cut into lines. Lines and columns count from zero, and columns count characters.
-/

namespace Caret

structure Position where
  line : Nat
  column : Nat
deriving DecidableEq, Repr

namespace Position

def start : Position := ⟨0, 0⟩

def nextColumn (position : Position) : Position :=
  ⟨position.line, position.column + 1⟩

def nextLine (position : Position) : Position :=
  ⟨position.line + 1, 0⟩

instance : Inhabited Position := ⟨start⟩

instance : Shown Position :=
  ⟨fun position =>
    Text.record "Position" [("line", shown position.line), ("column", shown position.column)]⟩

end Position

end Caret
