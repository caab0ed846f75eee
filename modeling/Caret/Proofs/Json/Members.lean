import Caret.Json.Value
import Mathlib.Data.List.Induction
import Mathlib.Data.List.Nodup

/-!
Members of objects. The object that members make has their names in order, each with the value of its last member; this
tells which object it is without a loop. Which names occur again, and which is the first to do so, is told by what
stands before a member, or by the index of the member.
-/

namespace Caret.Members

variable {α : Type} {name : String} {value : α} {members : List (String × α)}

theorem isSome_find? : (find? name members).isSome = true ↔ name ∈ members.map Prod.fst := by
  induction members with
  | nil => simp [find?]
  | cons member members ih =>
    obtain ⟨other, old⟩ := member
    rw [find?, List.map_cons, List.mem_cons, ← ih]
    split
    · next same => exact iff_of_true rfl (.inl same)
    · next different => exact (or_iff_right different).symm

/-! ### Members in order -/

def Ordered (members : List (String × α)) : Prop :=
  (members.map Prod.fst).Pairwise (· < ·)

instance (members : List (String × α)) : Decidable (Ordered members) :=
  inferInstanceAs (Decidable ((members.map Prod.fst).Pairwise (· < ·)))

theorem Ordered.nodup (ordered : Ordered members) : (members.map Prod.fst).Nodup := by
  apply List.Pairwise.imp _ ordered
  intro first second less same
  rw [same] at less
  exact String.lt_irrefl second less

theorem Ordered.lt_of_mem {first third : String × α} (ordered : Ordered (first :: members)) (among : third ∈ members) :
    first.1 < third.1 :=
  (List.pairwise_cons.mp ordered).1 third.1 (List.mem_map_of_mem among)

/-- Members in order are told by which members they are. -/
theorem Ordered.eq_of_mem_iff {first second : List (String × α)} (ordered : Ordered first) (too : Ordered second)
    (same : ∀ member, member ∈ first ↔ member ∈ second) : first = second := by
  have permuted : first.Perm second :=
    (List.perm_ext_iff_of_nodup (.of_map Prod.fst ordered.nodup) (.of_map Prod.fst too.nodup)).mpr same
  refine permuted.eq_of_pairwise ?_ (List.pairwise_map.mp ordered) (List.pairwise_map.mp too)
  intro member other _ _ less more
  exact absurd more (String.lt_asymm less)

/-- In members in order a name is put over the one member that has it. -/
theorem mem_insert_iff {member : String × α} (ordered : Ordered members) :
    member ∈ insert name value members ↔ member = (name, value) ∨ member ∈ members ∧ member.1 ≠ name := by
  induction members with
  | nil => simp [insert]
  | cons first members ih =>
    obtain ⟨other, old⟩ := first
    unfold insert
    split
    · next less =>
      have others : member ∈ (other, old) :: members → member.1 ≠ name := by
        rintro among rfl
        rcases List.mem_cons.mp among with rfl | among
        · exact String.lt_irrefl other less
        · exact String.lt_asymm less (ordered.lt_of_mem among)
      rw [List.mem_cons, and_iff_left_of_imp others]
    · split
      · next same =>
        have others : member ∈ members → member.1 ≠ name := by
          rintro among rfl
          exact String.lt_irrefl member.1 (same ▸ ordered.lt_of_mem among)
        have gone : ¬(member = (other, old) ∧ member.1 ≠ name) := by
          rintro ⟨rfl, different⟩
          exact different same.symm
        rw [List.mem_cons, List.mem_cons, or_and_right, or_iff_right gone, and_iff_left_of_imp others]
      · next different =>
        have apart : member = (other, old) → member.1 ≠ name := by
          rintro rfl
          exact Ne.symm different
        rw [List.mem_cons, ih (List.pairwise_cons.mp ordered).2, List.mem_cons, or_left_comm, or_and_right,
          and_iff_left_of_imp apart]

theorem ordered_insert (ordered : Ordered members) (name : String) (value : α) :
    Ordered (insert name value members) := by
  induction members with
  | nil => exact List.pairwise_singleton _ _
  | cons first members ih =>
    obtain ⟨other, old⟩ := first
    obtain ⟨before, later⟩ := List.pairwise_cons.mp ordered
    unfold insert
    split
    · next less =>
      refine List.pairwise_cons.mpr ⟨List.forall_mem_cons.mpr ⟨less, fun third inside => ?_⟩, ordered⟩
      exact String.lt_trans less (before third inside)
    · next above =>
      split
      · next same => exact List.pairwise_cons.mpr ⟨same ▸ before, later⟩
      · next different =>
        have greater : other < name := Std.lt_of_le_of_ne (String.not_lt.mp above) (Ne.symm different)
        refine List.pairwise_cons.mpr ⟨fun third inside => ?_, ih later⟩
        obtain ⟨member, among, rfl⟩ := List.mem_map.mp inside
        rcases (mem_insert_iff later).mp among with rfl | ⟨among, -⟩
        · exact greater
        · exact ordered.lt_of_mem among

theorem insert_last (last : ∀ other ∈ members.map Prod.fst, other < name) :
    insert name value members = members ++ [(name, value)] := by
  induction members with
  | nil => rfl
  | cons member members ih =>
    obtain ⟨other, old⟩ := member
    simp only [List.map_cons, List.mem_cons, forall_eq_or_imp] at last
    have less : ¬name < other := fun less => String.lt_asymm less last.1
    have different : name ≠ other := fun same => String.lt_irrefl other (same ▸ last.1)
    rw [insert, if_neg less, if_neg different, ih last.2, List.cons_append]

/-! ### Members brought together -/

theorem collect_append_singleton (members : List (String × α)) (member : String × α) :
    collect (members ++ [member]) = insert member.1 member.2 (collect members) := by
  simp [collect]

theorem ordered_collect (members : List (String × α)) : Ordered (collect members) := by
  induction members using List.reverseRecOn with
  | nil => exact List.Pairwise.nil
  | append_singleton members member ih =>
    rw [collect_append_singleton]
    exact ordered_insert ih member.1 member.2

theorem collect_of_ordered (ordered : Ordered members) : collect members = members := by
  induction members using List.reverseRecOn with
  | nil => rfl
  | append_singleton members member ih =>
    rw [Ordered, List.map_append, List.pairwise_append] at ordered
    have last : ∀ other ∈ members.map Prod.fst, other < member.1 :=
      fun other among => ordered.2.2 other among member.1 List.mem_cons_self
    rw [collect_append_singleton, ih ordered.1, insert_last last]

/-- The value of the last member of a name. -/
def Last (name : String) (value : α) (members : List (String × α)) : Prop :=
  ∃ before after, members = before ++ (name, value) :: after ∧ name ∉ after.map Prod.fst

theorem last_append_singleton {last : String} {other : α} :
    Last name value (members ++ [(last, other)]) ↔
      (name, value) = (last, other) ∨ Last name value members ∧ name ≠ last := by
  constructor
  · rintro ⟨before, after, split, fresh⟩
    rcases List.eq_nil_or_concat after with rfl | ⟨more, member, rfl⟩
    · exact .inl (List.append_singleton_inj.mp split).2.symm
    · rw [List.concat_eq_append] at split fresh
      rw [← List.cons_append, ← List.append_assoc] at split
      obtain ⟨rfl, rfl⟩ := List.append_singleton_inj.mp split
      rw [List.map_append, List.mem_append, not_or] at fresh
      exact .inr ⟨⟨before, more, rfl, fresh.1⟩, by simpa using fresh.2⟩
  · rintro (same | ⟨⟨before, after, rfl, fresh⟩, different⟩)
    · cases same
      exact ⟨members, [], rfl, List.not_mem_nil⟩
    · refine ⟨before, after ++ [(last, other)], by simp, ?_⟩
      rw [List.map_append, List.mem_append, not_or]
      exact ⟨fresh, by simpa using different⟩

theorem Last.mem (last : Last name value members) : (name, value) ∈ members := by
  obtain ⟨before, after, rfl, -⟩ := last
  exact List.mem_append_right before List.mem_cons_self

theorem exists_last (among : name ∈ members.map Prod.fst) : ∃ value, Last name value members := by
  induction members using List.reverseRecOn with
  | nil => exact absurd among List.not_mem_nil
  | append_singleton members member ih =>
    obtain ⟨last, other⟩ := member
    by_cases same : name = last
    · exact ⟨other, last_append_singleton.mpr (.inl (by rw [same]))⟩
    · rw [List.map_append, List.mem_append] at among
      obtain ⟨value, found⟩ := ih (among.resolve_right (by simpa using same))
      exact ⟨value, last_append_singleton.mpr (.inr ⟨found, same⟩)⟩

theorem mem_collect_iff : (name, value) ∈ collect members ↔ Last name value members := by
  induction members using List.reverseRecOn with
  | nil => simp [collect, Last]
  | append_singleton members member ih =>
    rw [collect_append_singleton, mem_insert_iff (ordered_collect members), last_append_singleton, ih]

/-- The object that members make: their names in order, each once, with the value of the last member of that name. -/
structure Gathers (members object : List (String × α)) : Prop where
  ordered : Ordered object
  names : ∀ name, name ∈ object.map Prod.fst ↔ name ∈ members.map Prod.fst
  values : ∀ name value, (name, value) ∈ object ↔ Last name value members

theorem Gathers.mem {object : List (String × α)} (gathers : Gathers members object) {member : String × α}
    (inside : member ∈ object) : member ∈ members :=
  ((gathers.values member.1 member.2).mp inside).mem

theorem gathers_collect (members : List (String × α)) : Gathers members (collect members) where
  ordered := ordered_collect members
  names name := by
    constructor
    · intro among
      obtain ⟨member, inside, rfl⟩ := List.mem_map.mp among
      exact List.mem_map_of_mem (mem_collect_iff.mp inside).mem
    · intro among
      obtain ⟨value, last⟩ := exists_last among
      exact List.mem_map_of_mem (mem_collect_iff.mpr last)
  values _ _ := mem_collect_iff

theorem gathers_iff {object : List (String × α)} : Gathers members object ↔ object = collect members := by
  constructor
  · intro gathers
    refine gathers.ordered.eq_of_mem_iff (ordered_collect members) fun member => ?_
    rw [gathers.values member.1 member.2, ← mem_collect_iff]
  · rintro rfl
    exact gathers_collect members

/-! ### Names that occur again -/

theorem nodup_append_singleton (members : List (String × α)) (member : String × α) :
    ((members ++ [member]).map Prod.fst).Nodup ↔
      member.1 ∉ members.map Prod.fst ∧ (members.map Prod.fst).Nodup := by
  rw [List.map_append, List.map_singleton, ← List.concat_eq_append, List.nodup_concat]

def FirstRepeat (name : String) (members : List (String × α)) : Prop :=
  ∃ before value after, members = before ++ (name, value) :: after ∧ (before.map Prod.fst).Nodup ∧
    name ∈ before.map Prod.fst

theorem exists_firstRepeat (again : ¬(members.map Prod.fst).Nodup) : ∃ name, FirstRepeat name members := by
  induction members using List.reverseRecOn with
  | nil => exact absurd List.nodup_nil again
  | append_singleton members member ih =>
    by_cases distinct : (members.map Prod.fst).Nodup
    · refine ⟨member.1, members, member.2, [], rfl, distinct, ?_⟩
      by_contra fresh
      exact again ((nodup_append_singleton members member).mpr ⟨fresh, distinct⟩)
    · obtain ⟨name, before, value, after, rfl, distinct, earlier⟩ := ih distinct
      exact ⟨name, before, value, after ++ [member], by simp, distinct, earlier⟩

/-- The name at an index occurs before it too. -/
def Recurs (names : List String) (index : Nat) (name : String) : Prop :=
  names[index]? = some name ∧ name ∈ names.take index

def recurring (names : List String) : List String :=
  (List.range names.length).filterMap fun index => names[index]?.filter (· ∈ names.take index)

theorem recurring_append_singleton (names : List String) (name : String) :
    recurring (names ++ [name]) = recurring names ++ if name ∈ names then [name] else [] := by
  have before : ∀ index ∈ List.range names.length,
      (names ++ [name])[index]?.filter (· ∈ (names ++ [name]).take index) =
        names[index]?.filter (· ∈ names.take index) := by
    intro index inside
    have short := List.mem_range.mp inside
    rw [List.getElem?_append_left short, List.take_append_of_le_length (Nat.le_of_lt short)]
  rw [recurring, List.length_append, List.length_singleton, List.range_succ, List.filterMap_append,
    List.filterMap_congr before, recurring]
  by_cases known : name ∈ names <;> simp [Option.filter, known]

structure FirstRecurs (names : List String) (index : Nat) (name : String) : Prop where
  recurs : Recurs names index name
  least : ∀ earlier < index, ∀ other, ¬Recurs names earlier other

theorem Recurs.not_nodup {names : List String} {index : Nat} (recurs : Recurs names index name) : ¬names.Nodup := by
  obtain ⟨here, before⟩ := recurs
  intro distinct
  have split := List.take_append_drop index names
  rw [← split, List.nodup_append] at distinct
  refine distinct.2.2 name before name ?_ rfl
  exact List.mem_of_getElem? (i := 0) (by simpa using here)

theorem FirstRecurs.unique {names : List String} {index other : Nat} {second : String}
    (first : FirstRecurs names index name) (too : FirstRecurs names other second) : name = second := by
  rcases Nat.lt_trichotomy index other with less | rfl | more
  · exact absurd first.recurs (too.least index less name)
  · exact Option.some.inj (first.recurs.1.symm.trans too.recurs.1)
  · exact absurd too.recurs (first.least other more second)

theorem FirstRepeat.firstRecurs (first : FirstRepeat name members) :
    ∃ index, FirstRecurs (members.map Prod.fst) index name := by
  obtain ⟨before, value, after, rfl, distinct, earlier⟩ := first
  refine ⟨(before.map Prod.fst).length, ⟨by simp, by simpa using earlier⟩, ?_⟩
  rintro index less other ⟨here, again⟩
  rw [List.map_append] at here again
  rw [List.getElem?_append_left less] at here
  rw [List.take_append_of_le_length (Nat.le_of_lt less)] at again
  exact Recurs.not_nodup ⟨here, again⟩ distinct

end Caret.Members
