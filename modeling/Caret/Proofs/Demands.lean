import Caret.Parser.Characters

/-!
What is asked of every part of a rule. Some properties of rules are about what is repeated somewhere inside, what is
added to the log and which containers there are, and about nothing else; a combined parser has such a property if its
parts have it and what it repeats is as asked.
-/

namespace Caret

structure Demands (Ref : Type → Type) where
  repeats : {α : Type} → Rule Ref α → Prop
  reports : Log → Prop
  /-- Of a gauge, an opener, a limit and a body. -/
  nests : {α : Type} → Nat → Char → Nat → Rule Ref α → Prop

namespace Rule

variable {Ref : Type → Type} {α : Type}

/-- Whatever a rule repeats, reports or nests anywhere inside is as asked. -/
def Fulfils (demands : Demands Ref) : {α : Type} → Rule Ref α → Prop
  | _, .satisfy _ _ => True
  | _, .finish _ => True
  | _, .always _ => True
  | _, .fail _ _ => True
  | _, .report log => demands.reports log
  | _, .bind rule next => rule.Fulfils demands ∧ ∀ value, (next value).Fulfils demands
  | _, .refine _ rule _ => rule.Fulfils demands
  | _, .orElse first second => first.Fulfils demands ∧ second.Fulfils demands
  | _, .many1 _ rule => demands.repeats rule ∧ rule.Fulfils demands
  | _, .relabel _ rule => rule.Fulfils demands
  | _, .forward _ _ => True
  | _, .nested gauge _ opener limit body => demands.nests gauge opener limit body ∧ body.Fulfils demands

/-- Whoever asks for less is satisfied too. -/
theorem Fulfils.mono {demands others : Demands Ref} {rule : Rule Ref α} (fulfils : rule.Fulfils demands)
    (repeats : ∀ {β : Type} (rule : Rule Ref β), demands.repeats rule → others.repeats rule)
    (reports : ∀ log, demands.reports log → others.reports log)
    (nests : ∀ {β : Type} (gauge : Nat) (opener : Char) (limit : Nat) (body : Rule Ref β),
      demands.nests gauge opener limit body → others.nests gauge opener limit body) : rule.Fulfils others := by
  induction rule with
  | satisfy | finish | always | fail | forward => trivial
  | report log => exact reports log fulfils
  | bind rule next ihRule ihNext => exact ⟨ihRule fulfils.1, fun value => ihNext value (fulfils.2 value)⟩
  | orElse first second ihFirst ihSecond => exact ⟨ihFirst fulfils.1, ihSecond fulfils.2⟩
  | refine _ _ _ ih | relabel _ _ ih => exact ih fulfils
  | many1 label rule ih => exact ⟨repeats rule fulfils.1, ih fulfils.2⟩
  | nested gauge label opener limit body ih => exact ⟨nests gauge opener limit body fulfils.1, ih fulfils.2⟩

end Rule

namespace Parser

variable {Ref : Type → Type} {α β γ : Type} {demands : Demands Ref} {first other : Parser Ref α}
  {second : Parser Ref β}

@[simp] theorem fulfils_satisfy (accepts : Char → Bool) (label : String) :
    (satisfy accepts label : Parser Ref Char).rule.Fulfils demands :=
  trivial

@[simp] theorem fulfils_char (expected : Char) : (char expected : Parser Ref Char).rule.Fulfils demands :=
  trivial

@[simp] theorem fulfils_finish : (finish : Parser Ref Unit).rule.Fulfils demands :=
  trivial

@[simp] theorem fulfils_forward (label : String) (ref : Ref α) : (forward label ref).rule.Fulfils demands :=
  trivial

@[simp] theorem fulfils_withLabel (label : String) :
    (first.withLabel label).rule.Fulfils demands ↔ first.rule.Fulfils demands :=
  Iff.rfl

@[simp] theorem fulfils_tryMap (convert : α → Except String β) :
    (first.tryMap convert).rule.Fulfils demands ↔ first.rule.Fulfils demands :=
  Iff.rfl

@[simp] theorem fulfils_map (convert : α → β) :
    (first.map convert).rule.Fulfils demands ↔ first.rule.Fulfils demands :=
  and_iff_left fun _ => trivial

@[simp] theorem fulfils_mapTo (value : β) :
    (first.mapTo value).rule.Fulfils demands ↔ first.rule.Fulfils demands :=
  fulfils_map fun _ => value

@[simp] theorem fulfils_reporting (events : α → Log) :
    (first.reporting events).rule.Fulfils demands ↔
      first.rule.Fulfils demands ∧ ∀ value, demands.reports (events value) :=
  and_congr_right fun _ => forall_congr' fun _ => and_iff_left fun _ => trivial

@[simp] theorem fulfils_orElse : (first.orElse other).rule.Fulfils demands ↔
    first.rule.Fulfils demands ∧ other.rule.Fulfils demands :=
  Iff.rfl

@[simp] theorem fulfils_opt : first.opt.rule.Fulfils demands ↔ first.rule.Fulfils demands :=
  (and_iff_left trivial).trans (fulfils_map some)

@[simp] theorem fulfils_many1 : first.many1.rule.Fulfils demands ↔
    demands.repeats first.rule ∧ first.rule.Fulfils demands :=
  Iff.rfl

@[simp] theorem fulfils_many : first.many.rule.Fulfils demands ↔
    demands.repeats first.rule ∧ first.rule.Fulfils demands :=
  and_iff_left trivial

@[simp] theorem fulfils_andThen : (first.andThen second).rule.Fulfils demands ↔
    first.rule.Fulfils demands ∧ (Nonempty α → second.rule.Fulfils demands) := by
  constructor
  · rintro ⟨fulfils, onward⟩
    exact ⟨fulfils, fun ⟨value⟩ => (fulfils_map (Prod.mk value)).mp (onward value)⟩
  · rintro ⟨fulfils, onward⟩
    exact ⟨fulfils, fun value => (fulfils_map (Prod.mk value)).mpr (onward ⟨value⟩)⟩

@[simp] theorem fulfils_keepLeft : (first.keepLeft second).rule.Fulfils demands ↔
    first.rule.Fulfils demands ∧ (Nonempty α → second.rule.Fulfils demands) :=
  (fulfils_map Prod.fst).trans fulfils_andThen

@[simp] theorem fulfils_keepRight : (first.keepRight second).rule.Fulfils demands ↔
    first.rule.Fulfils demands ∧ (Nonempty α → second.rule.Fulfils demands) :=
  (fulfils_map Prod.snd).trans fulfils_andThen

@[simp] theorem fulfils_between {closer : Parser Ref γ} : (between first second closer).rule.Fulfils demands ↔
    (first.rule.Fulfils demands ∧ (Nonempty α → second.rule.Fulfils demands)) ∧
      (Nonempty β → closer.rule.Fulfils demands) := by
  simp [between]

/-- A round of separated values takes a separator and a value. -/
@[simp] theorem fulfils_sepBy : (first.sepBy second).rule.Fulfils demands ↔ first.rule.Fulfils demands ∧
    (Nonempty α → demands.repeats (second.keepRight first).rule ∧ second.rule.Fulfils demands) := by
  constructor
  · rintro ⟨⟨fulfils, onward⟩, -⟩
    refine ⟨fulfils, fun ⟨value⟩ => ?_⟩
    have tail : (second.keepRight first).many.rule.Fulfils demands := (fulfils_map (value :: ·)).mp (onward value)
    exact ⟨(fulfils_many.mp tail).1, (fulfils_keepRight.mp (fulfils_many.mp tail).2).1⟩
  · rintro ⟨fulfils, onward⟩
    refine ⟨⟨fulfils, fun value => (fulfils_map (value :: ·)).mpr ?_⟩, trivial⟩
    obtain ⟨repeats, separator⟩ := onward ⟨value⟩
    exact fulfils_many.mpr ⟨repeats, fulfils_keepRight.mpr ⟨separator, fun _ => fulfils⟩⟩

theorem fulfils_choice {others : List (Parser Ref α)} : (choice first others).rule.Fulfils demands ↔
    first.rule.Fulfils demands ∧ ∀ parser ∈ others, parser.rule.Fulfils demands := by
  induction others generalizing first with
  | nil => simp [choice]
  | cons second others ih =>
    rw [List.forall_mem_cons, ← and_assoc]
    exact ih

theorem fulfils_sequenceFrom {parsers : List (Parser Ref α)} (taken : List α)
    (each : ∀ parser ∈ parsers, parser.rule.Fulfils demands) : (sequenceFrom taken parsers).Fulfils demands := by
  induction parsers generalizing taken with
  | nil => trivial
  | cons parser parsers ih =>
    rw [List.forall_mem_cons] at each
    exact ⟨each.1, fun value => ih (value :: taken) each.2⟩

@[simp] theorem fulfils_sequence {parsers : List (Parser Ref α)}
    (each : ∀ parser ∈ parsers, parser.rule.Fulfils demands) : (sequence parsers).rule.Fulfils demands :=
  fulfils_sequenceFrom [] each

@[simp] theorem fulfils_text (expected : String) : (Parser.text expected : Parser Ref String).rule.Fulfils demands := by
  refine (fulfils_map String.ofList).mpr (fulfils_sequence fun parser member => ?_)
  obtain ⟨char, -, rfl⟩ := List.mem_map.mp member
  exact fulfils_char char

end Parser

end Caret
