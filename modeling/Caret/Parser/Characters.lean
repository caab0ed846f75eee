import Caret.Parser.Combinators

/-!
Parsers of single characters and of text.
-/

namespace Caret.Parser

variable {Ref : Type → Type}

def satisfy (accepts : Char → Bool) (label : String) : Parser Ref Char :=
  ⟨label, .satisfy accepts label⟩

def char (expected : Char) : Parser Ref Char :=
  satisfy (· == expected) expected.toString

/-- The characters of a text in order, reported under the whole text. -/
def text (expected : String) : Parser Ref String :=
  ((sequence (expected.toList.map char)).map String.ofList).withLabel expected

def anyOf (first : Char) (others : List Char) : Parser Ref Char :=
  (choice (char first) (others.map char)).withLabel ("any of " ++ shown (first :: others))

def digit : Parser Ref Char :=
  satisfy Char.isDigit "digit"

def blank : Parser Ref Char :=
  satisfy Text.isBlank "whitespace"

def spaces : Parser Ref (List Char) :=
  blank.many

def spaces1 : Parser Ref (List Char) :=
  blank.many1

def manyChars (parser : Parser Ref Char) : Parser Ref String :=
  parser.many.map String.ofList

def many1Chars (parser : Parser Ref Char) : Parser Ref String :=
  parser.many1.map String.ofList

def finish : Parser Ref Unit :=
  ⟨"end of input", .finish "end of input"⟩

end Caret.Parser
