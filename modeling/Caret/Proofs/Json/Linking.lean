import Caret.Json.Document
import Caret.Proofs.Guards
import Caret.Proofs.Json.Collectors
import Caret.Proofs.Recast

/-!
The rules of a grammar, whatever references they are tied through. Values take a token before they come to a value
inside of them, so references are guarded; what is asked of all parts of a rule is asked of a few parts of a grammar
only; and rules of one grammar are those of another with its reference, its gauge and its limit.
-/

namespace Caret.Json

open Caret.Parser

section Guarded

variable {Ref : Type → Type}

theorem guarded_quotedString : (quotedString : Parser Ref String).rule.Guarded :=
  guarded_between trivial trivial

theorem guarded_literal : (literal : Parser Ref Literal).rule.Guarded := by
  have minus : ((char '-').opt : Parser Ref (Option Char)).rule.Guarded := guarded_opt trivial
  have whole : (wholeDigits : Parser Ref (List Char)).rule.Guarded := by
    constructor
    · exact guarded_map (guarded_text "0") String.toList
    · apply guarded_map
      exact guarded_andThen trivial (.inl trivial)
  have fraction : (fractionDigits : Parser Ref (List Char)).rule.Guarded := guarded_keepRight trivial (.inl trivial)
  have power : (power : Parser Ref Power).rule.Guarded :=
    guarded_keepRight ⟨trivial, trivial⟩ (.inl ⟨trivial, trivial⟩)
  apply guarded_map
  apply guarded_andThen
  · apply guarded_andThen
    · exact guarded_andThen minus (.inr whole)
    · exact .inr (guarded_opt fraction)
  · exact .inr (guarded_opt power)

theorem advances_token (expected : Char) : (token expected : Parser Ref Char).rule.Advances :=
  advances_keepLeft (.inl trivial)

theorem guarded_token (expected : Char) : (token expected : Parser Ref Char).rule.Guarded :=
  guarded_keepLeft trivial (.inl trivial)

theorem guarded_arrayRule (value : Parser Ref Json) : (arrayRule value).rule.Guarded :=
  guarded_map (guarded_between (guarded_token '[') (advances_token '[')) array

/-- Blanks may stand before the bracket that opens an object; they follow no reference. -/
theorem guarded_objectRule (value : Parser Ref Json) (policy : DuplicateKeys) :
    (objectRule value policy).rule.Guarded := by
  have blanks : (spaces : Parser Ref (List Char)).rule.Guarded := guarded_many trivial
  apply guarded_map
  apply guarded_between
  · exact guarded_keepRight blanks (.inr (guarded_token '\x7b'))
  · exact advances_keepRight (.inr (advances_token '\x7b'))

theorem guarded_alternatives (link : Ref Json) (gauge : Nat) (options : Options) :
    (Grammar.ofLink link gauge options).alternatives.rule.Guarded := by
  have null : (nullRule : Parser Ref Json).rule.Guarded := guarded_map (guarded_text "null") _
  have bool : (boolRule : Parser Ref Json).rule.Guarded :=
    ⟨guarded_map (guarded_text "true") _, guarded_map (guarded_text "false") _⟩
  have string : (stringRule : Parser Ref Json).rule.Guarded := guarded_map guarded_quotedString _
  apply guarded_choice null
  simp only [List.forall_mem_cons]
  exact ⟨bool, guarded_literal, string, guarded_arrayRule _, guarded_objectRule _ _, List.forall_mem_nil _⟩

end Guarded

section Demanded

variable {Ref : Type → Type} {demands : Demands Ref}

def nextItem (value : Parser Ref Json) : Parser Ref Json :=
  (token ',').keepRight (value.keepLeft spaces)

def nextMember (value : Parser Ref Json) : Parser Ref (String × Json) :=
  (token ',').keepRight (((quotedString.keepLeft spaces).keepLeft (token ':')).andThen (value.keepLeft spaces))

theorem fulfils_spaces (blanks : demands.repeats (blank : Parser Ref Char).rule) :
    (spaces : Parser Ref (List Char)).rule.Fulfils demands :=
  fulfils_many.mpr ⟨blanks, fulfils_satisfy _ _⟩

theorem fulfils_token (blanks : demands.repeats (blank : Parser Ref Char).rule) (expected : Char) :
    (token expected : Parser Ref Char).rule.Fulfils demands := by
  simp [token, fulfils_spaces blanks]

theorem fulfils_quotedString (characters : demands.repeats (stringChar : Parser Ref Char).rule) :
    (quotedString : Parser Ref String).rule.Fulfils demands := by
  have escapes : (escapedChar : Parser Ref Char).rule.Fulfils demands := by
    simp [escapedChar, fulfils_choice, shortEscape, shortEscapes]
  have codes : (unicodeChar : Parser Ref Char).rule.Fulfils demands := by
    simp [unicodeChar]
  have inside : (stringChar : Parser Ref Char).rule.Fulfils demands := by
    simp [stringChar, unescapedChar, escapes, codes]
  simp [quotedString, manyChars, characters, inside]

theorem fulfils_literal (digits : demands.repeats (digit : Parser Ref Char).rule) :
    (literal : Parser Ref Literal).rule.Fulfils demands := by
  have one : (digit : Parser Ref Char).rule.Fulfils demands := fulfils_satisfy _ _
  simp [literal, wholeDigits, fractionDigits, power, Parser.digits, digits, one]

theorem advances_stringChar : (stringChar : Parser Ref Char).rule.Advances := by
  have escape : ∀ pair ∈ ("\\\"", '"') :: shortEscapes, (shortEscape pair : Parser Ref Char).rule.Advances := by
    intro pair among
    refine advances_map (advances_text ?_) fun _ => pair.2
    exact (forall_mem_of_all (by decide) : ∀ pair ∈ ("\\\"", '"') :: shortEscapes, pair.1.toList ≠ []) pair among
  rw [List.forall_mem_cons] at escape
  have escapes : (escapedChar : Parser Ref Char).rule.Advances :=
    advances_choice escape.1 (List.forall_mem_map.mpr escape.2)
  have opener : ((char '\\').keepRight (char 'u') : Parser Ref Char).rule.Advances := advances_keepRight (.inl trivial)
  have codes : (unicodeChar : Parser Ref Char).rule.Advances := advances_map (advances_keepRight (.inl opener)) _
  exact ⟨⟨trivial, escapes⟩, codes⟩

theorem advances_nextItem (value : Parser Ref Json) : (nextItem value).rule.Advances :=
  advances_keepRight (.inl (advances_token ','))

theorem advances_nextMember (value : Parser Ref Json) : (nextMember value).rule.Advances :=
  advances_keepRight (.inl (advances_token ','))

/-- A grammar repeats blanks, digits, characters of strings, items and members, reports names that occur again, and has
two sorts of containers; all of it is as asked. -/
structure Allowed (demands : Demands Ref) (value : Parser Ref Json) (gauge : Nat) (options : Options) : Prop where
  blanks : demands.repeats (blank : Parser Ref Char).rule
  digits : demands.repeats (digit : Parser Ref Char).rule
  characters : demands.repeats (stringChar : Parser Ref Char).rule
  items : demands.repeats (nextItem value).rule
  members : demands.repeats (nextMember value).rule
  again (names : List String) : demands.reports (names.map duplicateKey)
  arrays : demands.nests gauge '[' options.maxDepth (arrayRule value).rule
  objects : demands.nests gauge '\x7b' options.maxDepth (objectRule value options.duplicateKeys).rule

section Containers

variable {value : Parser Ref Json} {gauge : Nat} {options : Options}

theorem Allowed.arrayRule (allowed : Allowed demands value gauge options) (fulfils : value.rule.Fulfils demands) :
    (arrayRule value).rule.Fulfils demands := by
  have token := fulfils_token allowed.blanks
  have items := allowed.items
  simp only [nextItem] at items
  simp [Json.arrayRule, token, fulfils, items, fulfils_spaces allowed.blanks]

theorem Allowed.objectRule (allowed : Allowed demands value gauge options) (fulfils : value.rule.Fulfils demands) :
    (objectRule value options.duplicateKeys).rule.Fulfils demands := by
  have token := fulfils_token allowed.blanks
  have name := fulfils_quotedString allowed.characters
  have members := allowed.members
  simp only [nextMember] at members
  cases options.duplicateKeys <;>
    simp [Json.objectRule, collected, log_lastWins, token, name, fulfils, members, allowed.again,
      fulfils_spaces allowed.blanks]

end Containers

variable {link : Ref Json} {gauge : Nat} {options : Options}

theorem fulfils_numberRule (digits : demands.repeats (digit : Parser Ref Char).rule) :
    (numberRule : Parser Ref Json).rule.Fulfils demands :=
  fulfils_literal digits

theorem fulfils_stringRule (characters : demands.repeats (stringChar : Parser Ref Char).rule) :
    (stringRule : Parser Ref Json).rule.Fulfils demands := by
  simp [stringRule, fulfils_quotedString characters]

namespace Allowed

variable (allowed : Allowed demands (forward "value" link) gauge options)

include allowed

theorem array : (Grammar.ofLink link gauge options).array.rule.Fulfils demands :=
  ⟨allowed.arrays, allowed.arrayRule (fulfils_forward "value" link)⟩

theorem object : (Grammar.ofLink link gauge options).object.rule.Fulfils demands :=
  ⟨allowed.objects, allowed.objectRule (fulfils_forward "value" link)⟩

theorem alternatives : (Grammar.ofLink link gauge options).alternatives.rule.Fulfils demands := by
  have null : (nullRule : Parser Ref Json).rule.Fulfils demands := by simp [nullRule]
  have bool : (boolRule : Parser Ref Json).rule.Fulfils demands := by simp [boolRule]
  have number := fulfils_numberRule allowed.digits
  have string := fulfils_stringRule allowed.characters
  refine fulfils_choice.mpr ⟨null, ?_⟩
  simp only [List.forall_mem_cons]
  exact ⟨bool, number, string, allowed.array, allowed.object, List.forall_mem_nil _⟩

theorem document : (Grammar.ofLink link gauge options).document.rule.Fulfils demands := by
  simp [Grammar.ofLink, fulfils_spaces allowed.blanks]

end Allowed

end Demanded

section Recasting

variable {Ref Ref' : Type → Type} (change : Recast Ref Ref') (link : Ref Json) (gauge : Nat) (options : Options)

def Options.recast : Options :=
  { options with maxDepth := change.limit gauge options.maxDepth }

theorem recast_alternatives :
    (Grammar.ofLink link gauge options).alternatives.rule.recast change =
      (Grammar.ofLink (change.link link) (change.gauge gauge) (options.recast change gauge)).alternatives.rule := by
  obtain ⟨policy, limit⟩ := options
  cases policy <;> rfl

theorem recast_document :
    (Grammar.ofLink link gauge options).document.rule.recast change =
      (Grammar.ofLink (change.link link) (change.gauge gauge) (options.recast change gauge)).document.rule := rfl

theorem recast_array :
    (Grammar.ofLink link gauge options).array.rule.recast change =
      (Grammar.ofLink (change.link link) (change.gauge gauge) (options.recast change gauge)).array.rule := rfl

theorem recast_object :
    (Grammar.ofLink link gauge options).object.rule.recast change =
      (Grammar.ofLink (change.link link) (change.gauge gauge) (options.recast change gauge)).object.rule := by
  obtain ⟨policy, limit⟩ := options
  cases policy <;> rfl

end Recasting

theorem Grammar.guarded_wiring (options : Options) : (Grammar.ofOptions options).wiring.Guarded := by
  intro α ref
  cases ref with
  | value =>
    have guarded : (Grammar.ofOptions options).alternatives.rule.Guarded := guarded_alternatives Link.value 0 options
    exact ⟨(Grammar.ofOptions options).alternatives.rule, rfl, guarded⟩

/-- Over the values of a grammar no rule comes to a fault, if the budget is above the tokens ahead. -/
theorem Grammar.sound_of_near {α : Type} (options : Options) (rule : Rule Link α) {budget : Nat} {ahead : List Char}
    (near : rule.Near budget ahead) (depths : Depths) :
    (rule.trace ((Grammar.ofOptions options).wiring.ask budget) depths ahead).Sound :=
  rule.sound_trace ((Grammar.ofOptions options).wiring.within_ask budget)
    (fun label ref depths ahead short =>
      Wiring.Guarded.sound_ask (guarded_wiring options) budget label ref depths ahead short) depths ahead near

/-- With a budget above the tokens ahead, a document comes to no fault. -/
theorem Grammar.sound_document (options : Options) {budget : Nat} {ahead : List Char} (enough : ahead.length < budget)
    (depths : Depths) :
    ((Grammar.ofOptions options).document.trace ((Grammar.ofOptions options).wiring.ask budget) depths ahead).Sound :=
  sound_of_near options (Grammar.ofOptions options).document.rule (.inl enough) depths

end Caret.Json
