import Caret.Text.Shown

/-!
What a JSON grammar allows: members that repeat a name, and how deep containers may nest.
-/

namespace Caret.Json

inductive DuplicateKeys where
  /-- The later member takes the place of the earlier. -/
  | lastWins
  /-- The object is refused. -/
  | reject
deriving DecidableEq, Repr

instance : Shown DuplicateKeys :=
  ⟨fun
    | .lastWins => "LastWins"
    | .reject => "Reject"⟩

structure Options where
  duplicateKeys : DuplicateKeys := .lastWins
  /-- How many containers may be open at once. -/
  maxDepth : Nat := 128
deriving DecidableEq, Repr

instance : Shown Options :=
  ⟨fun options =>
    Text.record "JsonOptions"
      [("duplicate_keys", shown options.duplicateKeys), ("max_depth", shown options.maxDepth)]⟩

end Caret.Json
