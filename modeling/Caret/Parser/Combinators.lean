import Caret.Parser.Basic

/-!
Parsers from parsers: conversion, sequence, choice and repetition. A sequence or a choice passes on the failure of the
part that gave up; only `withLabel` renames failures.
-/

namespace Caret.Parser

variable {Ref : Type → Type} {α β γ : Type}

/-! ### Values and conversion -/

def always (value : α) : Parser Ref α :=
  ⟨"always", .always value⟩

def fail (label message : String) : Parser Ref α :=
  ⟨label, .fail label message⟩

def map (parser : Parser Ref α) (convert : α → β) : Parser Ref β :=
  ⟨parser.label, parser.rule.map convert⟩

/-- A refused value is a failure of the parser where it started. -/
def tryMap (parser : Parser Ref α) (convert : α → Except String β) : Parser Ref β :=
  ⟨parser.label, .refine parser.label parser.rule convert⟩

def mapTo (parser : Parser Ref α) (value : β) : Parser Ref β :=
  parser.map fun _ => value

def reporting (parser : Parser Ref α) (events : α → Log) : Parser Ref α :=
  ⟨parser.label, parser.rule.bind fun value => (Rule.report (events value)).map fun _ => value⟩

def withLabel (parser : Parser Ref α) (label : String) : Parser Ref α :=
  ⟨label, .relabel label parser.rule⟩

/-! ### Sequence -/

def bind (parser : Parser Ref α) (next : α → Parser Ref β) : Parser Ref β :=
  ⟨parser.label, parser.rule.bind fun value => (next value).rule⟩

def andThen (first : Parser Ref α) (second : Parser Ref β) : Parser Ref (α × β) :=
  ⟨s!"{first.label} andThen {second.label}",
    first.rule.bind fun value => second.rule.map fun other => (value, other)⟩

def keepLeft (first : Parser Ref α) (second : Parser Ref β) : Parser Ref α :=
  (first.andThen second).map Prod.fst

def keepRight (first : Parser Ref α) (second : Parser Ref β) : Parser Ref β :=
  (first.andThen second).map Prod.snd

def between (opener : Parser Ref α) (parser : Parser Ref β) (closer : Parser Ref γ) : Parser Ref β :=
  (opener.keepRight parser).keepLeft closer

def apply (function : Parser Ref (α → β)) (argument : Parser Ref α) : Parser Ref β :=
  (function.andThen argument).map fun (convert, value) => convert value

def lift2 (combine : α → β → γ) (first : Parser Ref α) (second : Parser Ref β) : Parser Ref γ :=
  (first.andThen second).map fun (value, other) => combine value other

/-- Runs rules in order; `taken` holds the values before them, the last one first. -/
def sequenceFrom (taken : List α) : List (Parser Ref α) → Rule Ref (List α)
  | [] => .always taken.reverse
  | parser :: parsers => parser.rule.bind fun value => sequenceFrom (value :: taken) parsers

def sequence (parsers : List (Parser Ref α)) : Parser Ref (List α) :=
  ⟨" then ".intercalate (parsers.map label), sequenceFrom [] parsers⟩

/-! ### Choice -/

def orElse (first second : Parser Ref α) : Parser Ref α :=
  ⟨s!"{first.label} orElse {second.label}", .orElse first.rule second.rule⟩

/-- The first alternative that succeeds, or the failure of the last one. -/
def choice (first : Parser Ref α) (others : List (Parser Ref α)) : Parser Ref α :=
  others.foldl orElse first

def opt (parser : Parser Ref α) : Parser Ref (Option α) :=
  ⟨s!"opt {parser.label}", .orElse (parser.rule.map some) (.always none)⟩

/-! ### Repetition -/

def many1 (parser : Parser Ref α) : Parser Ref (List α) :=
  ⟨s!"many1 {parser.label}", .many1 parser.label parser.rule⟩

def many (parser : Parser Ref α) : Parser Ref (List α) :=
  ⟨s!"many {parser.label}", .orElse (.many1 parser.label parser.rule) (.always [])⟩

def sepBy1 (parser : Parser Ref α) (separator : Parser Ref β) : Parser Ref (List α) :=
  ⟨s!"{parser.label} sepBy1 {separator.label}",
    parser.rule.bind fun head => (separator.keepRight parser).many.rule.map fun tail => head :: tail⟩

def sepBy (parser : Parser Ref α) (separator : Parser Ref β) : Parser Ref (List α) :=
  ⟨s!"{parser.label} sepBy {separator.label}", .orElse (parser.sepBy1 separator).rule (.always [])⟩

/-! ### References -/

def forward (label : String) (ref : Ref α) : Parser Ref α :=
  ⟨label, .forward label ref⟩

end Caret.Parser
