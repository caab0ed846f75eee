import Caret.Workbench.Function

/-!
Recipes: parsers written down, before they are built. A name in a recipe stands for the parser that has the name when the
recipe is built.
-/

namespace Caret.Workbench

inductive Continuation where
  /-- The same character or text once more. -/
  | same
  /-- As many `x` as the value says. -/
  | exes
  /-- As many characters as the value says. -/
  | take
  | refuse
  | always

inductive JsonRule where
  | null
  | bool
  | number
  | string
  | value
  | array
  | object

inductive Recipe where
  | named (name : String)
  | satisfy (accepts : Accepts) (label : String)
  | char (expected : Char)
  | text (expected : String)
  | anyOf (chars : List Char)
  | digit
  | blank
  | spaces
  | spaces1
  | integer
  | float
  | finish
  | manyChars (recipe : Recipe)
  | many1Chars (recipe : Recipe)
  | always (value : Datum)
  | fail (label message : String)
  | map (recipe : Recipe) (transform : Transform)
  | tryMap (recipe : Recipe) (check : Check)
  | mapTo (recipe : Recipe) (value : Datum)
  | bind (recipe : Recipe) (next : Continuation)
  | bindTo (recipe next : Recipe)
  | andThen (first second : Recipe)
  | orElse (first second : Recipe)
  | keepLeft (first second : Recipe)
  | keepRight (first second : Recipe)
  | choice (recipes : List Recipe)
  | sequence (recipes : List Recipe)
  | apply (function argument : Recipe)
  | lift2 (combine : Combine) (first second : Recipe)
  | many (recipe : Recipe)
  | many1 (recipe : Recipe)
  | opt (recipe : Recipe)
  | sepBy (recipe separator : Recipe)
  | sepBy1 (recipe separator : Recipe)
  | between (opener recipe closer : Recipe)
  | withLabel (recipe : Recipe) (label : String)
  | sum
  | json (rule : JsonRule)

end Caret.Workbench
