import Caret.Position

/-!
A cursor over text cut into lines. Lines end with a line feed, or with a carriage return and a line feed; taking a
character gives a new cursor and leaves the old one as it was. The end of every line, the last one included, counts as
one line feed, so a text is the sequence of its `tokens`, and the tokens still ahead bound every repetition.
-/

namespace Caret

/-- One line without its terminator. -/
abbrev Line := Array Char

def Line.ofText (text : String) : Line :=
  text.toList.toArray

def Line.text (line : Line) : String :=
  String.ofList line.toList

def endOfFile : Line :=
  #['e', 'n', 'd', ' ', 'o', 'f', ' ', 'f', 'i', 'l', 'e']

/-- The tokens that lines amount to: their characters and one line feed each. -/
def tokenCount (lines : List Line) : Nat :=
  lines.foldr (fun line count => line.size + 1 + count) 0

structure Source where
  lines : Array Line
  size : Nat
  size_eq : size = tokenCount lines.toList

namespace Source

def ofLines (lines : Array Line) : Source :=
  ⟨lines, tokenCount lines.toList, rfl⟩

def cut (char : Char) (pieces : List Char × List (List Char)) : List Char × List (List Char) :=
  if char = '\n' then ([], pieces.1 :: pieces.2) else (char :: pieces.1, pieces.2)

def pieces (chars : List Char) : List Char × List (List Char) :=
  chars.foldr cut ([], [])

/-- A piece without one carriage return at its end. -/
def trimReturn (piece : List Char) : List Char :=
  if piece.getLast? = some '\r' then piece.dropLast else piece

/-- The empty text has no lines at all; any other has one line more than line feeds. -/
def ofChars (chars : List Char) : Source :=
  if chars.isEmpty then ofLines #[]
  else
    let (first, others) := pieces chars
    ofLines ((first :: others).map fun piece => (trimReturn piece).toArray).toArray

end Source

structure Snapshot where
  line : Line
  position : Position
deriving DecidableEq, Repr

instance : Shown Snapshot :=
  ⟨fun snapshot =>
    Text.record "PositionSnapshot"
      [("current_line", shown snapshot.line.text), ("line", shown snapshot.position.line),
        ("column", shown snapshot.position.column)]⟩

structure Input where
  source : Source
  position : Position

namespace Input

def ofChars (chars : List Char) : Input :=
  ⟨Source.ofChars chars, Position.start⟩

def ofText (text : String) : Input :=
  ofChars text.toList

def lineCount (input : Input) : Nat :=
  input.source.lines.size

def atEnd (input : Input) : Bool :=
  input.lineCount ≤ input.position.line

def line (input : Input) : Line :=
  (input.source.lines[input.position.line]?).getD endOfFile

def snapshot (input : Input) : Snapshot :=
  ⟨input.line, input.position⟩

def moveTo (input : Input) (position : Position) : Input :=
  ⟨input.source, position⟩

def next? (input : Input) : Option (Char × Input) :=
  match input.source.lines[input.position.line]? with
  | none => none
  | some chars =>
    match chars[input.position.column]? with
    | some char => some (char, input.moveTo input.position.nextColumn)
    | none => some ('\n', input.moveTo input.position.nextLine)

def advance : Nat → Input → Input
  | 0, input => input
  | count + 1, input =>
    match input.next? with
    | none => input
    | some (_, rest) => advance count rest

def take : Nat → Input → List Char
  | 0, _ => []
  | count + 1, input =>
    match input.next? with
    | none => []
    | some (token, rest) => token :: take count rest

/-- All tokens still ahead; there are never more than the source has. -/
def tokens (input : Input) : List Char :=
  input.take input.source.size

def finish (input : Input) : Input :=
  input.advance input.source.size

def seek (passes : Char → Bool) : Nat → Input → Option Char
  | 0, _ => none
  | count + 1, input =>
    match input.next? with
    | none => none
    | some (token, rest) => if passes token then seek passes count rest else some token

/-- The first token ahead that is not blank. -/
def firstSolid? (input : Input) : Option Char :=
  input.seek Text.isBlank input.source.size

instance : Shown Input :=
  ⟨fun input =>
    Text.record "InputState" [("lines", shown input.lineCount), ("position", shown input.position)]⟩

end Input

end Caret
