import Caret.Proofs.Demands
import Caret.Proofs.Moments

/-!
Guards of combined parsers. That a parser takes a token for sure, and that it follows no reference before one, is told
from its parts. Past a part that takes a token, anything may follow. Containers open first in a parser, if they do in
its parts; that all containers inside of a rule do is one of the demands on rules.
-/

namespace Caret.Parser

variable {Ref : Type → Type} {α β γ : Type}

/-! ### Taking a token -/

section Taking

variable {first : Parser Ref α} {second : Parser Ref β}

theorem advances_map (advances : first.rule.Advances) (convert : α → β) : (first.map convert).rule.Advances :=
  .inl advances

theorem advances_andThen (advances : first.rule.Advances ∨ second.rule.Advances) :
    (first.andThen second).rule.Advances := by
  rcases advances with advances | advances
  · exact .inl advances
  · exact .inr fun value => advances_map advances (Prod.mk value)

theorem advances_keepLeft (advances : first.rule.Advances ∨ second.rule.Advances) :
    (first.keepLeft second).rule.Advances :=
  advances_map (advances_andThen advances) Prod.fst

theorem advances_keepRight (advances : first.rule.Advances ∨ second.rule.Advances) :
    (first.keepRight second).rule.Advances :=
  advances_map (advances_andThen advances) Prod.snd

theorem advances_choice {others : List (Parser Ref α)} (advances : first.rule.Advances)
    (each : ∀ parser ∈ others, parser.rule.Advances) : (choice first others).rule.Advances := by
  induction others generalizing first with
  | nil => exact advances
  | cons second others ih =>
    rw [List.forall_mem_cons] at each
    exact ih ⟨advances, each.1⟩ each.2

theorem advances_text {expected : String} (some : expected.toList ≠ []) :
    (Parser.text expected : Parser Ref String).rule.Advances := by
  obtain ⟨first, rest, spelled⟩ := List.exists_cons_of_ne_nil some
  have characters : (sequence (expected.toList.map char) : Parser Ref (List Char)).rule.Advances := by
    rw [spelled]
    exact .inl trivial
  exact advances_map characters String.ofList

end Taking

/-! ### Following no reference before a token -/

section Following

variable {first : Parser Ref α} {second : Parser Ref β}

theorem guarded_map (guarded : first.rule.Guarded) (convert : α → β) : (first.map convert).rule.Guarded := by
  constructor
  · exact guarded
  · exact .inr fun _ => trivial

theorem guarded_andThen (guarded : first.rule.Guarded) (onward : first.rule.Advances ∨ second.rule.Guarded) :
    (first.andThen second).rule.Guarded := by
  constructor
  · exact guarded
  · rcases onward with advances | guarded'
    · exact .inl advances
    · exact .inr fun value => guarded_map guarded' (Prod.mk value)

theorem guarded_keepLeft (guarded : first.rule.Guarded) (onward : first.rule.Advances ∨ second.rule.Guarded) :
    (first.keepLeft second).rule.Guarded :=
  guarded_map (guarded_andThen guarded onward) Prod.fst

theorem guarded_keepRight (guarded : first.rule.Guarded) (onward : first.rule.Advances ∨ second.rule.Guarded) :
    (first.keepRight second).rule.Guarded :=
  guarded_map (guarded_andThen guarded onward) Prod.snd

theorem guarded_between {closer : Parser Ref γ} (guarded : first.rule.Guarded) (advances : first.rule.Advances) :
    (between first second closer).rule.Guarded := by
  apply guarded_keepLeft
  · exact guarded_keepRight guarded (.inl advances)
  · exact .inl (advances_keepRight (.inl advances))

theorem guarded_opt (guarded : first.rule.Guarded) : first.opt.rule.Guarded := by
  constructor
  · exact guarded_map guarded some
  · trivial

theorem guarded_many (guarded : first.rule.Guarded) : first.many.rule.Guarded := by
  constructor
  · exact guarded
  · trivial

theorem guarded_choice {others : List (Parser Ref α)} (guarded : first.rule.Guarded)
    (each : ∀ parser ∈ others, parser.rule.Guarded) : (choice first others).rule.Guarded := by
  induction others generalizing first with
  | nil => exact guarded
  | cons second others ih =>
    apply ih
    · exact ⟨guarded, each second List.mem_cons_self⟩
    · intro parser member
      exact each parser (List.mem_cons_of_mem second member)

theorem guarded_sequenceFrom {parsers : List (Parser Ref α)} (taken : List α)
    (each : ∀ parser ∈ parsers, parser.rule.Guarded) : (sequenceFrom taken parsers).Guarded := by
  induction parsers generalizing taken with
  | nil => trivial
  | cons parser parsers ih =>
    constructor
    · exact each parser List.mem_cons_self
    · refine .inr fun value => ih (value :: taken) ?_
      intro other member
      exact each other (List.mem_cons_of_mem parser member)

theorem guarded_text (expected : String) : (Parser.text expected : Parser Ref String).rule.Guarded := by
  apply guarded_map
  apply guarded_sequenceFrom
  intro parser member
  obtain ⟨char, -, rfl⟩ := List.mem_map.mp member
  trivial

end Following

/-! ### Containers that open first -/

section Opening

variable {opener : Char} {first : Parser Ref α} {second : Parser Ref β}

theorem opens_map (opens : first.rule.Opens opener) (convert : α → β) : (first.map convert).rule.Opens opener :=
  Or.inl opens

theorem opens_andThen (opens : first.rule.Opens opener ∨ first.rule.Skips ∧ second.rule.Opens opener) :
    (first.andThen second).rule.Opens opener := by
  rcases opens with opens | ⟨skips, opens⟩
  · exact Or.inl opens
  · exact Or.inr ⟨skips, fun value => opens_map opens (Prod.mk value)⟩

theorem opens_keepLeft (opens : first.rule.Opens opener) : (first.keepLeft second).rule.Opens opener :=
  opens_map (opens_andThen (.inl opens)) Prod.fst

theorem opens_keepRight (opens : first.rule.Opens opener ∨ first.rule.Skips ∧ second.rule.Opens opener) :
    (first.keepRight second).rule.Opens opener :=
  opens_map (opens_andThen opens) Prod.snd

theorem opens_between {closer : Parser Ref γ} (opens : first.rule.Opens opener) :
    (between first second closer).rule.Opens opener :=
  opens_keepLeft (opens_keepRight (.inl opens))

theorem opens_char (opener : Char) : (char opener : Parser Ref Char).rule.Opens opener :=
  fun _ same => eq_of_beq same

theorem skips_spaces : (spaces : Parser Ref (List Char)).rule.Skips :=
  ⟨fun _ blank => blank, trivial⟩

end Opening

end Caret.Parser

namespace Caret

def Demands.shelter {Ref : Type → Type} (gauge limit : Nat) : Demands Ref where
  repeats _ := True
  reports _ := True
  nests own opener bound body := own = gauge ∧ bound = limit ∧ Text.isBlank opener = false ∧ body.Opens opener

theorem Rule.sheltered_iff {Ref : Type → Type} {α : Type} {gauge limit : Nat} {rule : Rule Ref α} :
    rule.Sheltered gauge limit ↔ rule.Fulfils (.shelter gauge limit) := by
  induction rule with
  | satisfy | finish | always | fail | report | forward => exact Iff.rfl
  | bind rule next ihRule ihNext => exact and_congr ihRule (forall_congr' ihNext)
  | orElse first second ihFirst ihSecond => exact and_congr ihFirst ihSecond
  | refine _ _ _ ih | relabel _ _ ih => exact ih
  | many1 label rule ih => exact ih.trans (and_iff_right trivial).symm
  | nested own label opener bound body ih => simp only [Sheltered, Fulfils, Demands.shelter, ih, and_assoc]

end Caret
