import Caret.Parser.Characters
import Caret.Number.Literal

/-!
Parsers of numbers in decimal digits.
-/

namespace Caret.Parser

variable {Ref : Type → Type}

def digits : Parser Ref (List Char) :=
  digit.many1

def integer : Parser Ref Int64 :=
  (((char '-').opt.andThen digits).tryMap fun (sign, digits) =>
    match toWord? (signedValue sign.isSome digits) with
    | some value => .ok value
    | none => .error "Integer out of range").withLabel "integer"

def float : Parser Ref Double :=
  ((((char '-').opt.andThen digits).andThen ((char '.').andThen digits)).tryMap
    fun ((sign, whole), (_, fraction)) =>
      let literal : Literal := { negative := sign.isSome, whole, fraction }
      match Double.ofText? literal.text with
      | some value => .ok value
      | none => .error s!"Invalid float '{literal.text}'").withLabel "float"

end Caret.Parser
