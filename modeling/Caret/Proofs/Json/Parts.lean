import Caret.Proofs.Json.Members

/-!
Values inside values. What is to hold of a value and of everything inside it is said of its parts, and proved by an
induction that asks for the items of an array and the values of the members of an object.
-/

namespace Caret.Json

/-! ### Induction over values -/

theorem induct {motive : Json → Prop} (null : motive .null) (bool : ∀ value, motive (.bool value))
    (number : ∀ value, motive (.number value)) (string : ∀ value, motive (.string value))
    (array : ∀ items : List Json, (∀ item ∈ items, motive item) → motive (.array items))
    (object : ∀ members : List (String × Json), (∀ member ∈ members, motive member.2) → motive (.object members))
    (value : Json) : motive value := by
  refine @Json.rec motive (fun items => ∀ item ∈ items, motive item)
    (fun members => ∀ member ∈ members, motive member.2) (fun member => motive member.2)
    null bool number string array object ?_ ?_ ?_ ?_ ?_ value
  · exact fun item absent => absurd absent List.not_mem_nil
  · intro first rest here others
    exact List.forall_mem_cons.mpr ⟨here, others⟩
  · exact fun member absent => absurd absent List.not_mem_nil
  · intro first rest here others
    exact List.forall_mem_cons.mpr ⟨here, others⟩
  · exact fun name value here => here

/-! ### Depth -/

theorem itemsDepth_le {items : List Json} {room : Nat} :
    itemsDepth items ≤ room ↔ ∀ item ∈ items, item.depth ≤ room := by
  induction items with
  | nil => simp [itemsDepth]
  | cons item rest ih => simp only [itemsDepth, Nat.max_le, ih, List.mem_cons, forall_eq_or_imp]

theorem membersDepth_le {members : List (String × Json)} {room : Nat} :
    membersDepth members ≤ room ↔ ∀ member ∈ members, member.2.depth ≤ room := by
  induction members with
  | nil => simp [membersDepth]
  | cons member rest ih =>
    obtain ⟨name, value⟩ := member
    simp only [membersDepth, Nat.max_le, ih, List.mem_cons, forall_eq_or_imp]

/-! ### Parts -/

/-- A part of a value: the value itself, or a part of a value directly inside. -/
inductive Part (part : Json) : Json → Prop
  | whole : Part part part
  | item {items : List Json} {item : Json} (among : item ∈ items) (inside : Part part item) : Part part (.array items)
  | member {members : List (String × Json)} {member : String × Json} (among : member ∈ members)
    (inside : Part part member.2) : Part part (.object members)

def Ordered (value : Json) : Prop :=
  ∀ members, Part (.object members) value → Members.Ordered members

def Finite (value : Json) : Prop :=
  ∀ amount, Part (.number amount) value → amount.isFinite = true

section Inside

variable {items : List Json} {members : List (String × Json)}

theorem Ordered.item {item : Json} (ordered : (array items).Ordered) (member : item ∈ items) : item.Ordered :=
  fun members part => ordered members (.item member part)

theorem Ordered.member {member : String × Json} (ordered : (object members).Ordered) (inside : member ∈ members) :
    member.2.Ordered :=
  fun others part => ordered others (.member inside part)

theorem ordered_array (each : ∀ item ∈ items, item.Ordered) : (array items).Ordered := by
  intro members part
  cases part with
  | item among inside => exact each _ among members inside

theorem ordered_object (order : Members.Ordered members) (each : ∀ member ∈ members, member.2.Ordered) :
    (object members).Ordered := by
  intro others part
  cases part with
  | whole => exact order
  | member among inside => exact each _ among others inside

theorem Finite.item {item : Json} (finite : (array items).Finite) (member : item ∈ items) : item.Finite :=
  fun amount part => finite amount (.item member part)

theorem Finite.member {member : String × Json} (finite : (object members).Finite) (inside : member ∈ members) :
    member.2.Finite :=
  fun amount part => finite amount (.member inside part)

theorem finite_array (each : ∀ item ∈ items, item.Finite) : (array items).Finite := by
  intro amount part
  cases part with
  | item among inside => exact each _ among amount inside

theorem finite_object (each : ∀ member ∈ members, member.2.Finite) : (object members).Finite := by
  intro amount part
  cases part with
  | member among inside => exact each _ among amount inside

end Inside

/-! ### Numbers that have no literal -/

mutual

/-- The value with `null` in the place of every number that is not finite. -/
def nullified : Json → Json
  | number value => if value.isFinite then number value else null
  | array items => array (nullifiedItems items)
  | object members => object (nullifiedMembers members)
  | value => value

def nullifiedItems : List Json → List Json
  | [] => []
  | item :: rest => item.nullified :: nullifiedItems rest

def nullifiedMembers : List (String × Json) → List (String × Json)
  | [] => []
  | (name, value) :: rest => (name, value.nullified) :: nullifiedMembers rest

end

theorem nullifiedItems_eq (items : List Json) : nullifiedItems items = items.map nullified := by
  induction items with
  | nil => rfl
  | cons item rest ih => rw [nullifiedItems, ih, List.map_cons]

theorem nullifiedMembers_eq (members : List (String × Json)) :
    nullifiedMembers members = members.map fun member => (member.1, member.2.nullified) := by
  induction members with
  | nil => rfl
  | cons member rest ih => rw [nullifiedMembers, ih, List.map_cons]

theorem names_nullifiedMembers (members : List (String × Json)) :
    (nullifiedMembers members).map Prod.fst = members.map Prod.fst := by
  rw [nullifiedMembers_eq, List.map_map]
  rfl

/-- Names stay as they are. -/
theorem Ordered.nullified {value : Json} (ordered : value.Ordered) : value.nullified.Ordered := by
  induction value using induct with
  | null => exact ordered
  | bool value => exact ordered
  | number value =>
    intro members part
    unfold Json.nullified at part
    split at part <;> cases part
  | string value => exact ordered
  | array items ih =>
    rw [Json.nullified, nullifiedItems_eq]
    refine ordered_array (List.forall_mem_map.mpr fun item among => ?_)
    exact ih item among (ordered.item among)
  | object members ih =>
    rw [Json.nullified]
    apply ordered_object
    · rw [Members.Ordered, names_nullifiedMembers]
      exact ordered members .whole
    · rw [nullifiedMembers_eq]
      exact List.forall_mem_map.mpr fun member among => ih member among (ordered.member among)

theorem map_eq_self {α : Type} {change : α → α} {things : List α} (each : ∀ thing ∈ things, change thing = thing) :
    things.map change = things := by
  calc
    things.map change = things.map id := List.map_congr_left each
    _ = things := List.map_id things

/-- A value whose numbers are all finite stays as it is. -/
theorem nullified_of_finite {value : Json} (finite : value.Finite) : value.nullified = value := by
  induction value using induct with
  | null => rfl
  | bool value => rfl
  | number value => rw [nullified, if_pos (finite value .whole)]
  | string value => rfl
  | array items ih =>
    rw [nullified, nullifiedItems_eq, map_eq_self fun item among => ih item among (finite.item among)]
  | object members ih =>
    have each : ∀ member ∈ members, (member.1, member.2.nullified) = member :=
      fun member inside => Prod.ext rfl (ih member inside (finite.member inside))
    rw [nullified, nullifiedMembers_eq, map_eq_self each]

end Caret.Json
