import Caret.Parser.Numerals

/-!
Sums and differences of words, such as `1 + 2 - 3`, read and worked out from left to right. A step that leaves the range
of words refuses the whole sum.
-/

namespace Caret.Sum

open Caret.Parser

variable {Ref : Type → Type}

inductive Operator where
  | add
  | subtract
deriving DecidableEq, Repr

def operator : Parser Ref Operator :=
  (choice ((char '+').mapTo .add) [(char '-').mapTo .subtract]).withLabel "operator"

def step (sum : Int64) : Operator × Int64 → Option Int64
  | (.add, value) => toWord? (sum.toInt + value.toInt)
  | (.subtract, value) => toWord? (sum.toInt - value.toInt)

def total (first : Int64) (steps : List (Operator × Int64)) : Option Int64 :=
  steps.foldlM step first

def number : Parser Ref Int64 :=
  integer.keepLeft spaces

def expression : Parser Ref Int64 :=
  ((number.andThen ((operator.keepLeft spaces).andThen number).many).tryMap fun (first, steps) =>
    match total first steps with
    | some sum => .ok sum
    | none => .error "Result out of range").withLabel "expression"

inductive NoRef : Type → Type

def wiring : Wiring NoRef :=
  ⟨fun ref => (nomatch ref), 0⟩

def evaluate (text : String) : Reply Int64 :=
  (expression.run wiring text []).reply

def samples : List String :=
  ["1 + 2 - 3", "10 - 4 + 100", "7", "x + 1", "1 +\n  + 2", "9223372036854775807 + 1"]

def showcaseEntry (text : String) : String :=
  s!"输入: {shown text}\n{(evaluate text).render}\n" ++ String.ofList (List.replicate 50 '=') ++ "\n"

def showcase : String :=
  String.join (samples.map showcaseEntry)

end Caret.Sum
