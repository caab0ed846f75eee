import Caret.Workbench.Datum
import Caret.Number.Literal

/-!
The functions that recipes can name. A function leaves a datum as it is where it has nothing to do with its type.
-/

namespace Caret.Workbench

inductive Accepts where
  | any
  | among (chars : List Char)
  | except (chars : List Char)
  | range (first last : Char)

def Accepts.test : Accepts → Char → Bool
  | any, _ => true
  | among chars, char => char ∈ chars
  | except chars, char => char ∉ chars
  | range first last, char => first ≤ char && char ≤ last

inductive Transform where
  | text
  | length
  | negate
  | increment
  | first
  | second
  | reverse
  | sum
  | wrap
  | diagnostic
  | keep

def Transform.apply : Transform → Datum → Datum
  | text, datum => (datum.flat?.map Datum.text).getD datum
  | length, .text value => .word (Int64.ofNat value.length)
  | length, .list items => .word (Int64.ofNat items.length)
  | negate, .word value => .word (-value)
  | increment, .word value => .word (value + 1)
  | first, .pair value _ => value
  | second, .pair _ value => value
  | reverse, .list items => .list items.reverse
  | sum, .list items => .word (items.foldl (fun total item => total + item.wordOr0) 0)
  | wrap, datum => .list [datum]
  | diagnostic, datum => .text (shown datum)
  | _, datum => datum

inductive Check where
  | even
  | atMost (bound : Int)
  | nonempty
  | parseWord
  | refuse (message : String)
  | keep

def Check.apply : Check → Datum → Except String Datum
  | even, .word value =>
    if value.toInt % 2 = 0 then .ok (.word value) else .error s!"{value.toInt} is odd"
  | atMost bound, .word value =>
    if bound < value.toInt then .error s!"{value.toInt} is too big" else .ok (.word value)
  | nonempty, .text value => if value.isEmpty then .error "empty" else .ok (.text value)
  | nonempty, .list items => if items.isEmpty then .error "empty" else .ok (.list items)
  | parseWord, .text value =>
    match wordOfText? value with
    | some word => .ok (.word word)
    | none => .error s!"not an integer: {value}"
  | refuse message, _ => .error message
  | _, datum => .ok datum

inductive Combine where
  | add
  | concat
  | swap
  | pair

def Combine.apply : Combine → Datum → Datum → Datum
  | add, .word first, .word second => .word (first + second)
  | concat, .text first, .text second => .text (first ++ second)
  | swap, first, second => .pair second first
  | _, first, second => .pair first second

def Datum.call : Datum → Datum → Datum
  | .char '-', argument => Transform.negate.apply argument
  | .char '+', argument => Transform.increment.apply argument
  | .char '#', argument => Transform.length.apply argument
  | function, argument => .pair function argument

end Caret.Workbench
