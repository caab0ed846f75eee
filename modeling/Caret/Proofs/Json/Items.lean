import Caret.Proofs.Diagnostics
import Caret.Proofs.Json.Strings

/-!
Strings item by item. No item is the front of another one, so tokens come apart into items in one way, and from a place
on there are most items that can be taken. A string is decoded item by item up to there: with a quote it ends, and with
anything else it is given up, for the backslash or the end of the input that is found there.
-/

namespace Caret.Json

open Caret.Parser Syntax

/-! ### Items in a row -/

/-- Where one item ends is settled by the tokens, and so is what it stands for. -/
theorem Syntax.Item.cut {word word' ahead ahead' : List Char} {char char' : Char} (item : Item word char)
    (item' : Item word' char') (same : word ++ ahead = word' ++ ahead') :
    word = word' ∧ char = char' ∧ ahead = ahead' := by
  let ask : Ask (fun _ => Empty) := fun _ ref => Empty.elim ref
  have taken := trace_stringChar ask (fun _ => 0) ahead item
  have taken' := trace_stringChar ask (fun _ => 0) ahead' item'
  rw [same, taken'] at taken
  obtain ⟨rfl, rfl⟩ : char' = char ∧ ahead' = ahead := by simpa [Trace.took] using taken
  exact ⟨List.append_cancel_right same, rfl, rfl⟩

def Items (items : List (List Char × Char)) : Prop :=
  ∀ item ∈ items, Item item.1 item.2

/-- The items that are ahead, up to where no item is. -/
structure Itemized (items : List (List Char × Char)) (ahead rest : List Char) : Prop where
  all : Items items
  front : items.flatMap Prod.fst ++ rest = ahead
  ended : ∀ word char, Item word char → ¬word <+: rest

theorem exists_itemized (ahead : List Char) : ∃ items rest, Itemized items ahead rest := by
  induction size : ahead.length using Nat.strongRecOn generalizing ahead with
  | ind size ih =>
    subst size
    by_cases more : ∃ word char, Item word char ∧ word <+: ahead
    · obtain ⟨word, char, item, tail, rfl⟩ := more
      have shorter : tail.length < (word ++ tail).length := by
        have longer := List.length_pos_iff.mpr item.ne_nil
        rw [List.length_append]
        omega
      obtain ⟨items, rest, itemized⟩ := ih _ shorter tail rfl
      exact ⟨(word, char) :: items, rest, List.forall_mem_cons.mpr ⟨item, itemized.all⟩,
        by rw [List.flatMap_cons, List.append_assoc, itemized.front], itemized.ended⟩
    · exact ⟨[], ahead, nofun, rfl, fun word char item front => more ⟨word, char, item, front⟩⟩

/-- However many items are a front of what is ahead, they are the first ones of those that are ahead. -/
theorem Itemized.prefix_of_items {items others : List (List Char × Char)} {ahead rest : List Char}
    (itemized : Itemized items ahead rest) (all : Items others) (front : others.flatMap Prod.fst <+: ahead) :
    others <+: items := by
  induction others generalizing items ahead with
  | nil => exact List.nil_prefix
  | cons other others ih =>
    obtain ⟨items', same, ended⟩ := itemized
    subst same
    obtain ⟨item, all⟩ := List.forall_mem_cons.mp all
    rw [List.flatMap_cons] at front
    cases items with
    | nil => exact absurd ((List.prefix_append _ _).trans front) (ended _ _ item)
    | cons first items =>
      obtain ⟨item', items'⟩ := List.forall_mem_cons.mp items'
      obtain ⟨back, front⟩ := front
      rw [List.flatMap_cons, List.append_assoc, List.append_assoc] at front
      obtain ⟨word, char, tail⟩ := item.cut item' front
      rw [Prod.ext word char]
      exact List.cons_prefix_cons.mpr ⟨rfl, ih ⟨items', rfl, ended⟩ all ⟨back, tail⟩⟩

theorem Items.unique {items others : List (List Char × Char)} (all : Items items) (all' : Items others)
    (same : items.flatMap Prod.fst = others.flatMap Prod.fst) : items = others := by
  have ended : ∀ word char, Item word char → ¬word <+: [] :=
    fun word char item front => item.ne_nil (List.prefix_nil.mp front)
  have here : Itemized items (items.flatMap Prod.fst) [] := ⟨all, List.append_nil _, ended⟩
  have there : Itemized others (items.flatMap Prod.fst) [] := ⟨all', by rw [same, List.append_nil], ended⟩
  have front := there.prefix_of_items all List.prefix_rfl
  have front' := here.prefix_of_items all' (same ▸ List.prefix_rfl)
  exact front.eq_of_length_le front'.length_le

theorem body_iff {word chars : List Char} :
    Body word chars ↔ ∃ items, Items items ∧ word = items.flatMap Prod.fst ∧ chars = items.map Prod.snd := by
  constructor
  · intro body
    induction body with
    | nil => exact ⟨[], nofun, rfl, rfl⟩
    | @cons item word chars char first more ih =>
      obtain ⟨items, all, rfl, rfl⟩ := ih
      exact ⟨(item, char) :: items, List.forall_mem_cons.mpr ⟨first, all⟩, rfl, rfl⟩
  · rintro ⟨items, all, rfl, rfl⟩
    induction items with
    | nil => exact .nil
    | cons item items ih =>
      obtain ⟨first, all⟩ := List.forall_mem_cons.mp all
      exact .cons first (ih all)

/-- A body of two bodies is decoded to what they are decoded to. -/
theorem body_append_iff {front back left right chars : List Char} (body : Body front left) (body' : Body back right) :
    Body (front ++ back) chars ↔ chars = left ++ right := by
  obtain ⟨items, all, rfl, rfl⟩ := body_iff.mp body
  obtain ⟨others, all', rfl, rfl⟩ := body_iff.mp body'
  have both : Items (items ++ others) := List.forall_mem_append.mpr ⟨all, all'⟩
  rw [← List.flatMap_append, ← List.map_append, body_iff]
  constructor
  · rintro ⟨row, every, same, rfl⟩
    rw [both.unique every same]
  · rintro rfl
    exact ⟨items ++ others, both, rfl, rfl⟩

/-! ### Strings -/

section Strings

variable {items : List (List Char × Char)} {ahead rest : List Char}

/-- Any token but a quote or a backslash would be one more item. -/
theorem Itemized.edge {token : Char} {more : List Char} (itemized : Itemized items ahead (token :: more)) :
    token = '"' ∨ token = '\\' := by
  apply Decidable.byContradiction
  intro other
  rw [not_or] at other
  exact itemized.ended [token] token (.plain other.2 other.1) ⟨more, rfl⟩

variable {Ref : Type → Type} (ask : Ask Ref) (depths : Depths)

theorem trace_items (itemized : Itemized items ahead rest) :
    stringChar.many.trace ask depths ahead = .took (items.map Prod.snd) rest := by
  obtain ⟨all, rfl, ended⟩ := itemized
  exact trace_stringChars ask depths rest (body_iff.mpr ⟨items, all, rfl, rfl⟩) ended

theorem trace_stringRule_closed (itemized : Itemized items ahead ('"' :: rest)) :
    stringRule.trace ask depths ('"' :: ahead) = .took (.string (String.ofList (items.map Prod.snd))) rest := by
  have inside := trace_items ask depths itemized
  simp [stringRule, quotedString, manyChars, Rule.traceSatisfy, inside, -trace_many]

theorem trace_stringRule_open (itemized : Itemized items ahead rest) (unclosed : ∀ more, rest ≠ '"' :: more) :
    stringRule.trace ask depths ('"' :: ahead) = .stopped (.here "quoted string" rest) := by
  have inside := trace_items ask depths itemized
  cases rest with
  | nil => simp [stringRule, quotedString, manyChars, Rule.traceSatisfy, inside, Stop.here, -trace_many]
  | cons token more =>
    have other : token ≠ '"' := fun same => unclosed more (by rw [same])
    simp [stringRule, quotedString, manyChars, Rule.traceSatisfy, inside, other, Stop.here, -trace_many]

end Strings

/-- After a quote the items are taken that are ahead, and there is one row of them: whatever items are a front of what
is ahead are the first ones of it. If a quote comes next, the string is what the items stand for, and what is left is
right after the quote. If not, the failure is where the items end, for a backslash or for the end of the input. Tokens
come apart into items in one way, so a body of two bodies is decoded to what the two are decoded to. -/
theorem stringRule_itemized {Ref : Type → Type} (wiring : Wiring Ref) (gauges : Gauges) {input start : Input}
    (opened : input.next? = some ('"', start)) :
    (∃ items rest, Itemized items start.ahead rest ∧
      (∀ others, Items others → others.flatMap Prod.fst <+: start.ahead → others <+: items) ∧
      let place := start.advance (items.flatMap Prod.fst).length
      (∀ after, place.next? = some ('"', after) →
        (stringRule.parse wiring input gauges).reply = .accept (.string (String.ofList (items.map Prod.snd))) after) ∧
      ((∀ after, place.next? ≠ some ('"', after)) →
        (stringRule.parse wiring input gauges).reply = .reject (.here "quoted string" place) ∧
          (place.next? = none ∨ ∃ after, place.next? = some ('\\', after)))) ∧
      (∀ items others, Items items → Items others → items.flatMap Prod.fst = others.flatMap Prod.fst →
        items = others) ∧
      ∀ front back left right chars, Body front left → Body back right →
        (Body (front ++ back) chars ↔ chars = left ++ right) := by
  refine ⟨?_, fun _ _ => Items.unique, fun _ _ _ _ _ => body_append_iff⟩
  obtain ⟨items, rest, itemized⟩ := exists_itemized start.ahead
  refine ⟨items, rest, itemized, fun _ => itemized.prefix_of_items, ?_⟩
  intro place
  have leads : input.Leads place := .step opened (start.leads_advance _)
  have left : place.ahead = rest := Input.ahead_advance_of_append itemized.front.symm
  have places := (stringRule.parse_agrees wiring input gauges).reply
  change (stringRule.trace _ _ _).answer.Places _ _ at places
  rw [Input.ahead_of_next? opened] at places
  constructor
  · intro after closed
    rw [Input.ahead_of_next? closed] at left
    rw [trace_stringRule_closed _ _ (left ▸ itemized)] at places
    exact places.eq_accept (leads.trans (.of_next? closed))
  · intro unclosed
    have unclosed' : ∀ more, rest ≠ '"' :: more := by
      rintro more rfl
      obtain ⟨after, closed, -⟩ := Input.next?_of_ahead left
      exact unclosed after closed
    rw [trace_stringRule_open _ _ itemized unclosed', ← left] at places
    refine ⟨places.eq_reject leads, ?_⟩
    cases found : place.next? with
    | none => exact .inl rfl
    | some next =>
      obtain ⟨token, after⟩ := next
      rw [Input.ahead_of_next? found] at left
      rcases (left ▸ itemized).edge with rfl | rfl
      · exact absurd found (unclosed after)
      · exact .inr ⟨after, rfl⟩

/-- A code of two digits where four are asked for: the item before it is the only one. -/
theorem stringRule_itemized_short :
    let wiring : Wiring (fun _ => Empty) := ⟨nofun, 0⟩
    let input := Input.ofText "\"a\\u00\""
    let start := input.advance 1
    input.next? = some ('"', start) ∧
      (stringRule.parse wiring input []).reply = .reject (.here "quoted string" (start.advance 1)) ∧
      ∃ items rest, Itemized items start.ahead rest ∧ [(['a'], 'a')] <+: items := by
  intro wiring input start
  have opened : input.next? = some ('"', start) := rfl
  obtain ⟨⟨items, rest, itemized, most, -⟩, -⟩ := stringRule_itemized wiring [] opened
  refine ⟨opened, rfl, items, rest, itemized, most _ ?_ ⟨_, rfl⟩⟩
  exact List.forall_mem_singleton.mpr (.plain (by decide) (by decide))

end Caret.Json
