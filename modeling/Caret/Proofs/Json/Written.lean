import Caret.Proofs.Json.Completeness
import Caret.Proofs.Json.Parts

/-!
Documents as they are written. The tree of a document keeps all members of every object, in the order in which they
stand and under their decoded names; the value of the document is its tree with the members of each object brought
together.
The syntax is unambiguous: where a word ends, and which tree it spells, is settled by its tokens.
-/

namespace Caret.Json

open Caret.Parser Syntax

/-! ### Trees -/

namespace Syntax

inductive Frame (Tree : List Char → Json → Prop) : List Char → Json → Prop
  | array {blanks word : List Char} {items : List Json} (blank : Blanks blanks)
    (listed : Listed (Spaced Tree) word items) : Frame Tree ('[' :: (blanks ++ word ++ [']'])) (.array items)
  | object {blanks word : List Char} {members : List (String × Json)} (blank : Blanks blanks)
    (listed : Listed (Member Tree) word members) : Frame Tree ('\x7b' :: (blanks ++ word ++ ['\x7d'])) (.object members)

/-- The words that open at most `room` containers at once, and the trees that they spell. -/
def Written : Nat → List Char → Json → Prop
  | 0, word, tree => Scalar word tree
  | room + 1, word, tree => Scalar word tree ∨ Frame (Written room) word tree

inductive WrittenDocument (limit : Nat) : List Char → Json → Prop
  | mk {before word after : List Char} {tree : Json} (blank : Blanks before) (written : Written limit word tree)
    (blank' : Blanks after) : WrittenDocument limit (before ++ word ++ after) tree

end Syntax

mutual

/-- The tree with the members of every object brought together. -/
def gathered : Json → Json
  | array items => array (gatheredItems items)
  | object members => ofMembers (gatheredMembers members)
  | tree => tree

def gatheredItems : List Json → List Json
  | [] => []
  | item :: rest => item.gathered :: gatheredItems rest

def gatheredMembers : List (String × Json) → List (String × Json)
  | [] => []
  | (name, tree) :: rest => (name, tree.gathered) :: gatheredMembers rest

end

theorem gatheredItems_eq (items : List Json) : gatheredItems items = items.map gathered := by
  induction items with
  | nil => rfl
  | cons item rest ih => rw [gatheredItems, ih, List.map_cons]

def gatheredMember (member : String × Json) : String × Json :=
  (member.1, member.2.gathered)

theorem gatheredMembers_eq (members : List (String × Json)) : gatheredMembers members = members.map gatheredMember := by
  induction members with
  | nil => rfl
  | cons member rest ih => rw [gatheredMembers, ih, List.map_cons, gatheredMember]

theorem names_map_gatheredMember (members : List (String × Json)) :
    (members.map gatheredMember).map Prod.fst = members.map Prod.fst := by
  rw [List.map_map]
  rfl

def Distinct (tree : Json) : Prop :=
  ∀ members, Part (.object members) tree → (members.map Prod.fst).Nodup

theorem distinct_array {items : List Json} : (array items).Distinct ↔ ∀ item ∈ items, item.Distinct := by
  constructor
  · exact fun distinct item among members part => distinct members (.item among part)
  · intro each members part
    cases part with
    | item among inside => exact each _ among members inside

theorem distinct_object {members : List (String × Json)} :
    (object members).Distinct ↔ (members.map Prod.fst).Nodup ∧ ∀ member ∈ members, member.2.Distinct := by
  constructor
  · intro distinct
    exact ⟨distinct members .whole, fun member among others part => distinct others (.member among part)⟩
  · rintro ⟨names, each⟩ others part
    cases part with
    | whole => exact names
    | member among inside => exact each _ among others inside

theorem distinct_of_scalar {word : List Char} {tree : Json} (scalar : Scalar word tree) : tree.Distinct := by
  intro members part
  cases scalar <;> cases part

theorem Ordered.distinct {tree : Json} (ordered : tree.Ordered) : tree.Distinct :=
  fun members part => (ordered members part).nodup

/-- Members in the order of their names are together already. -/
theorem gathered_of_ordered {tree : Json} (ordered : tree.Ordered) : tree.gathered = tree := by
  induction tree using induct with
  | null | bool | number | string => rfl
  | array items ih =>
    rw [gathered, gatheredItems_eq, map_eq_self fun item among => ih item among (ordered.item among)]
  | object members ih =>
    have each : ∀ member ∈ members, gatheredMember member = member :=
      fun member among => Prod.ext rfl (ih member among (ordered.member among))
    rw [gathered, gatheredMembers_eq, map_eq_self each, ofMembers, Members.collect_of_ordered (ordered members .whole)]

theorem gathered_of_scalar {word : List Char} {tree : Json} (scalar : Scalar word tree) : tree.gathered = tree := by
  cases scalar <;> rfl

/-! ### From trees to values -/

section Viewing

variable {α β : Type} {Element : List Char → α → Prop} {Tree : List Char → β → Prop} {view : β → α} {good : β → Prop}
  (each : ∀ word value, Element word value ↔ ∃ tree, Tree word tree ∧ good tree ∧ view tree = value)

include each

theorem more_iff {word : List Char} {values : List α} :
    More Element word values ↔
      ∃ trees, More Tree word trees ∧ (∀ tree ∈ trees, good tree) ∧ trees.map view = values := by
  constructor
  · intro more
    induction more with
    | nil => exact ⟨[], .nil, List.forall_mem_nil _, rfl⟩
    | cons blank element more ih =>
      obtain ⟨tree, spelled, first, rfl⟩ := (each _ _).mp element
      obtain ⟨trees, further, others, rfl⟩ := ih
      exact ⟨tree :: trees, .cons blank spelled further, List.forall_mem_cons.mpr ⟨first, others⟩, rfl⟩
  · rintro ⟨trees, more, all, rfl⟩
    induction more with
    | nil => exact .nil
    | cons blank spelled more ih =>
      rw [List.forall_mem_cons] at all
      exact .cons blank ((each _ _).mpr ⟨_, spelled, all.1, rfl⟩) (ih all.2)

theorem listed_iff {word : List Char} {values : List α} :
    Listed Element word values ↔
      ∃ trees, Listed Tree word trees ∧ (∀ tree ∈ trees, good tree) ∧ trees.map view = values := by
  constructor
  · intro listed
    cases listed with
    | nil => exact ⟨[], .nil, List.forall_mem_nil _, rfl⟩
    | cons element more =>
      obtain ⟨tree, spelled, first, rfl⟩ := (each _ _).mp element
      obtain ⟨trees, further, others, rfl⟩ := (more_iff each).mp more
      exact ⟨tree :: trees, .cons spelled further, List.forall_mem_cons.mpr ⟨first, others⟩, rfl⟩
  · rintro ⟨trees, listed, all, rfl⟩
    cases listed with
    | nil => exact .nil
    | cons spelled more =>
      rw [List.forall_mem_cons] at all
      exact .cons ((each _ _).mpr ⟨_, spelled, all.1, rfl⟩) ((more_iff each).mpr ⟨_, more, all.2, rfl⟩)

end Viewing

def Passes (policy : DuplicateKeys) (tree : Json) : Prop :=
  policy = .reject → tree.Distinct

section Elements

variable {policy : DuplicateKeys} {Value Tree : List Char → Json → Prop}
  (each : ∀ word value, Value word value ↔ ∃ tree, Tree word tree ∧ Passes policy tree ∧ tree.gathered = value)

include each

theorem spaced_iff (word : List Char) (item : Json) :
    Spaced Value word item ↔ ∃ tree, Spaced Tree word tree ∧ Passes policy tree ∧ tree.gathered = item := by
  constructor
  · rintro ⟨spelled, blank⟩
    obtain ⟨tree, written, passes, same⟩ := (each _ _).mp spelled
    exact ⟨tree, .mk written blank, passes, same⟩
  · rintro ⟨tree, ⟨written, blank⟩, passes, same⟩
    exact .mk ((each _ _).mpr ⟨_, written, passes, same⟩) blank

theorem member_iff (word : List Char) (member : String × Json) :
    Member Value word member ↔
      ∃ tree, Member Tree word tree ∧ Passes policy tree.2 ∧ gatheredMember tree = member := by
  constructor
  · rintro ⟨named, blank, blank', spelled, blank''⟩
    obtain ⟨tree, written, passes, rfl⟩ := (each _ _).mp spelled
    exact ⟨_, .mk named blank blank' written blank'', passes, rfl⟩
  · rintro ⟨tree, ⟨named, blank, blank', written, blank''⟩, passes, rfl⟩
    exact .mk named blank blank' ((each _ _).mpr ⟨_, written, passes, rfl⟩) blank''

theorem container_iff (word : List Char) (value : Json) :
    Container Value policy word value ↔ ∃ tree, Frame Tree word tree ∧ Passes policy tree ∧ tree.gathered = value := by
  constructor
  · intro container
    cases container with
    | array blank listed =>
      obtain ⟨trees, written, passes, rfl⟩ := (listed_iff (spaced_iff each)).mp listed
      refine ⟨.array trees, .array blank written, ?_, by rw [gathered, gatheredItems_eq]⟩
      exact fun reject => distinct_array.mpr fun tree among => passes tree among reject
    | object blank listed distinct gathers =>
      obtain ⟨trees, written, passes, rfl⟩ := (listed_iff (member_iff each)).mp listed
      obtain rfl := Members.gathers_iff.mp gathers
      refine ⟨.object trees, .object blank written, ?_, by rw [gathered, gatheredMembers_eq, ofMembers]⟩
      intro reject
      rw [names_map_gatheredMember] at distinct
      exact distinct_object.mpr ⟨distinct reject, fun tree among => passes tree among reject⟩
  · rintro ⟨tree, frame, passes, rfl⟩
    cases frame with
    | array blank written =>
      rw [gathered, gatheredItems_eq]
      refine .array blank ((listed_iff (spaced_iff each)).mpr ⟨_, written, fun tree among reject => ?_, rfl⟩)
      exact distinct_array.mp (passes reject) tree among
    | object blank written =>
      rw [gathered, gatheredMembers_eq]
      refine .object blank ((listed_iff (member_iff each)).mpr ⟨_, written, fun tree among reject => ?_, rfl⟩) ?_
        (Members.gathers_collect _)
      · exact (distinct_object.mp (passes reject)).2 tree among
      · intro reject
        rw [names_map_gatheredMember]
        exact (distinct_object.mp (passes reject)).1

end Elements

theorem scalar_iff {policy : DuplicateKeys} {word : List Char} {value : Json} :
    Scalar word value ↔ ∃ tree, Scalar word tree ∧ Passes policy tree ∧ tree.gathered = value := by
  constructor
  · exact fun scalar => ⟨value, scalar, fun _ => distinct_of_scalar scalar, gathered_of_scalar scalar⟩
  · rintro ⟨tree, scalar, -, rfl⟩
    rwa [gathered_of_scalar scalar]

/-- The values of the syntax are the trees that the policy lets pass, gathered. -/
theorem value_iff {policy : DuplicateKeys} {room : Nat} (word : List Char) (value : Json) :
    Syntax.Value policy room word value ↔
      ∃ tree, Written room word tree ∧ Passes policy tree ∧ tree.gathered = value := by
  induction room generalizing word value with
  | zero => exact scalar_iff
  | succ room ih =>
    simp only [Syntax.Value, Written, or_and_right, exists_or]
    exact or_congr scalar_iff (container_iff ih word value)

theorem document_iff {options : Options} {word : List Char} {value : Json} :
    Document options word value ↔ ∃ tree, WrittenDocument options.maxDepth word tree ∧
      Passes options.duplicateKeys tree ∧ tree.gathered = value := by
  constructor
  · rintro ⟨blank, spelled, blank'⟩
    obtain ⟨tree, written, passes, same⟩ := (value_iff _ _).mp spelled
    exact ⟨tree, .mk blank written blank', passes, same⟩
  · rintro ⟨tree, ⟨blank, written, blank'⟩, passes, same⟩
    exact .mk blank ((value_iff _ _).mpr ⟨tree, written, passes, same⟩) blank'

/-! ### One tree for each document -/

def Starts (ahead : List Char) : Prop :=
  ∃ first rest, ahead = first :: rest ∧ Text.isBlank first = false ∧ first ∉ [',', ']', '\x7d']

theorem Starts.solid {word : List Char} (starts : Starts word) (ahead : List Char) : Solid (word ++ ahead) := by
  obtain ⟨first, rest, rfl, solid, -⟩ := starts
  exact solid_cons solid _

theorem Starts.ne_closer {word : List Char} (starts : Starts word) {closer : Char} (closes : closer ∈ [']', '\x7d'])
    (ahead ahead' : List Char) : word ++ ahead ≠ closer :: ahead' := by
  obtain ⟨first, rest, rfl, -, other⟩ := starts
  intro same
  obtain rfl : first = closer := (List.cons.inj same).1
  exact other (List.mem_cons_of_mem _ closes)

theorem starts_of_scalar {word : List Char} {tree : Json} (scalar : Scalar word tree) : Starts word := by
  have solid := solid_scalar scalar []
  obtain ⟨first, rest, rfl, begins⟩ := scalar.head
  refine ⟨first, rest, rfl, solid first rfl, fun stops => ?_⟩
  have none : ∀ char ∈ [',', ']', '\x7d'], ¬(char ∈ ['n', 't', 'f', '-', '"'] ∨ char.isDigit = true) :=
    forall_mem_of_all (by decide)
  exact none first stops begins

theorem starts_of_written {room : Nat} {word : List Char} {tree : Json} (written : Written room word tree) :
    Starts word := by
  cases room with
  | zero => exact starts_of_scalar written
  | succ room =>
    rcases written with scalar | frame
    · exact starts_of_scalar scalar
    · cases frame with
      | array => exact ⟨'[', _, rfl, by decide, by decide⟩
      | object => exact ⟨'\x7b', _, rfl, by decide, by decide⟩

/-- The same tokens, cut after a word where words may end, are cut in one place and spell one tree. -/
def Cuts {α : Type} (Element : List Char → α → Prop) (ends : List Char → Prop) : Prop :=
  ∀ {word word' ahead ahead' : List Char} {value value' : α}, Element word value → Element word' value' →
    ends ahead → ends ahead' → word ++ ahead = word' ++ ahead' → value = value' ∧ ahead = ahead'

theorem dropBlanks {blanks blanks' ahead ahead' : List Char} (blank : Blanks blanks) (blank' : Blanks blanks')
    (solid : Solid ahead) (solid' : Solid ahead') (same : blanks ++ ahead = blanks' ++ ahead') : ahead = ahead' := by
  rw [← dropWhile_blanks blank solid, same, dropWhile_blanks blank' solid']

section Lists

variable {α : Type} {Element : List Char → α → Prop} {closer : Char} {ahead ahead' : List Char}
  (closes : closer ∈ [']', '\x7d']) (starts : ∀ word value, Element word value → Starts word)
  (cuts : Cuts Element Stopper)

include closes starts cuts

theorem cuts_more {word word' : List Char} {values values' : List α} (more : More Element word values)
    (more' : More Element word' values') (same : word ++ closer :: ahead = word' ++ closer :: ahead') :
    values = values' ∧ ahead = ahead' := by
  have other : closer ≠ ',' := fun comma => absurd (comma ▸ closes) (by decide)
  induction more generalizing word' values' with
  | nil =>
    cases more' with
    | nil => exact ⟨rfl, (List.cons.inj same).2⟩
    | cons => exact absurd (List.cons.inj same).1 other
  | cons blank element more ih =>
    cases more' with
    | nil => exact absurd (List.cons.inj same).1.symm other
    | cons blank' element' more' =>
      simp only [List.cons_append, List.append_assoc, List.cons.injEq, true_and] at same
      have onward := dropBlanks blank blank' ((starts _ _ element).solid _) ((starts _ _ element').solid _) same
      obtain ⟨rfl, further⟩ :=
        cuts element element' (stopper_more closes more ahead) (stopper_more closes more' ahead') onward
      obtain ⟨rfl, rest⟩ := ih more' further
      exact ⟨rfl, rest⟩

theorem cuts_listed {word word' : List Char} {values values' : List α} (listed : Listed Element word values)
    (listed' : Listed Element word' values') (same : word ++ closer :: ahead = word' ++ closer :: ahead') :
    values = values' ∧ ahead = ahead' := by
  cases listed with
  | nil =>
    cases listed' with
    | nil => exact ⟨rfl, (List.cons.inj same).2⟩
    | cons element' more' =>
      rw [List.append_assoc] at same
      exact absurd same.symm ((starts _ _ element').ne_closer closes _ _)
  | cons element more =>
    cases listed' with
    | nil =>
      rw [List.append_assoc] at same
      exact absurd same ((starts _ _ element).ne_closer closes _ _)
    | cons element' more' =>
      rw [List.append_assoc, List.append_assoc] at same
      obtain ⟨rfl, further⟩ :=
        cuts element element' (stopper_more closes more ahead) (stopper_more closes more' ahead') same
      obtain ⟨rfl, rest⟩ := cuts_more closes starts cuts more more' further
      exact ⟨rfl, rest⟩

/-- What stands between the brackets of a container, with the closing one. -/
theorem cuts_inside {blanks blanks' word word' : List Char} {values values' : List α} (blank : Blanks blanks)
    (blank' : Blanks blanks') (listed : Listed Element word values) (listed' : Listed Element word' values')
    (same : blanks ++ word ++ [closer] ++ ahead = blanks' ++ word' ++ [closer] ++ ahead') :
    values = values' ∧ ahead = ahead' := by
  have solid : ∀ word value ahead, Element word value → Solid (word ++ ahead) :=
    fun word value ahead element => (starts word value element).solid ahead
  simp only [List.append_assoc, List.singleton_append] at same
  have onward := dropBlanks blank blank' (solid_listed closes solid listed ahead)
    (solid_listed closes solid listed' ahead') same
  exact cuts_listed closes starts cuts listed listed' onward

end Lists

theorem cuts_scalar : Cuts Scalar Literal.Edge := by
  intro word word' ahead ahead' tree tree' scalar scalar' edge edge' same
  have taken := trace_scalarRule ((Grammar.ofOptions {}).wiring.ask 0) (fun _ => 0) ahead scalar edge
  have taken' := trace_scalarRule ((Grammar.ofOptions {}).wiring.ask 0) (fun _ => 0) ahead' scalar' edge'
  rw [same, taken'] at taken
  simpa [Trace.took, eq_comm] using taken

theorem cuts_quoted {word word' ahead ahead' : List Char} {name name' : String} (quoted : Quoted word name)
    (quoted' : Quoted word' name') (same : word ++ ahead = word' ++ ahead') : name = name' ∧ ahead = ahead' := by
  have taken := trace_quotedString ((Grammar.ofOptions {}).wiring.ask 0) (fun _ => 0) ahead quoted
  have taken' := trace_quotedString ((Grammar.ofOptions {}).wiring.ask 0) (fun _ => 0) ahead' quoted'
  rw [same, taken'] at taken
  simpa [Trace.took, eq_comm] using taken

section Elements

variable {Tree : List Char → Json → Prop} (starts : ∀ word tree, Tree word tree → Starts word)
  (cuts : Cuts Tree Literal.Edge)

omit cuts in
include starts in
theorem starts_of_spaced (word : List Char) (item : Json) (spaced : Spaced Tree word item) : Starts word := by
  obtain ⟨written, blank⟩ := spaced
  obtain ⟨first, rest, rfl, solid, other⟩ := starts _ _ written
  exact ⟨first, _, rfl, solid, other⟩

omit starts cuts in
theorem starts_of_member (word : List Char) (member : String × Json) (is : Member Tree word member) :
    Starts word := by
  obtain ⟨⟨inside⟩, blank, blank', written, blank''⟩ := is
  exact ⟨'"', _, rfl, by decide, by decide⟩

omit starts in
include cuts in
theorem cuts_spaced : Cuts (Spaced Tree) Stopper := by
  rintro word word' ahead ahead' item item' ⟨written, blank⟩ ⟨written', blank'⟩ stopper stopper' same
  rw [List.append_assoc, List.append_assoc] at same
  obtain ⟨rfl, further⟩ :=
    cuts written written' (edge_of_blanks blank stopper.edge) (edge_of_blanks blank' stopper'.edge) same
  exact ⟨rfl, dropBlanks blank blank' stopper.solid stopper'.solid further⟩

include starts cuts in
theorem cuts_member : Cuts (Member Tree) Stopper := by
  rintro _ _ ahead ahead' _ _ ⟨named, before, after, written, last⟩ ⟨named', before', after', written', last'⟩ stopper
    stopper' same
  simp only [List.append_assoc, List.cons_append] at same
  obtain ⟨rfl, onward⟩ := cuts_quoted named named' same
  have colon := dropBlanks before before' (solid_cons (by decide) _) (solid_cons (by decide) _) onward
  have front := dropBlanks after after' ((starts _ _ written).solid _) ((starts _ _ written').solid _)
    (List.cons.inj colon).2
  obtain ⟨rfl, further⟩ :=
    cuts written written' (edge_of_blanks last stopper.edge) (edge_of_blanks last' stopper'.edge) front
  exact ⟨rfl, dropBlanks last last' stopper.solid stopper'.solid further⟩

include starts cuts in
theorem cuts_frame {word word' ahead ahead' : List Char} {tree tree' : Json} (frame : Frame Tree word tree)
    (frame' : Frame Tree word' tree') (same : word ++ ahead = word' ++ ahead') : tree = tree' ∧ ahead = ahead' := by
  cases frame with
  | array blank listed =>
    cases frame' with
    | array blank' listed' =>
      obtain ⟨rfl, rest⟩ := cuts_inside (by decide) (starts_of_spaced starts) (cuts_spaced cuts) blank blank' listed
        listed' (List.cons.inj same).2
      exact ⟨rfl, rest⟩
    | object => exact absurd (List.cons.inj same).1 (by decide)
  | object blank listed =>
    cases frame' with
    | array => exact absurd (List.cons.inj same).1 (by decide)
    | object blank' listed' =>
      obtain ⟨rfl, rest⟩ := cuts_inside (by decide) starts_of_member (cuts_member starts cuts) blank blank' listed
        listed' (List.cons.inj same).2
      exact ⟨rfl, rest⟩

end Elements

/-- No scalar begins like a container. -/
theorem scalar_ne_frame {Tree : List Char → Json → Prop} {word word' : List Char} {tree tree' : Json}
    (scalar : Scalar word tree) (frame : Frame Tree word' tree') (ahead ahead' : List Char) :
    word ++ ahead ≠ word' ++ ahead' := by
  obtain ⟨first, rest, rfl, begins⟩ := scalar.head
  have none : ∀ char ∈ ['[', '\x7b'], ¬(char ∈ ['n', 't', 'f', '-', '"'] ∨ char.isDigit = true) :=
    forall_mem_of_all (by decide)
  intro same
  cases frame with
  | array => exact none '[' (by decide) ((List.cons.inj same).1 ▸ begins)
  | object => exact none '\x7b' (by decide) ((List.cons.inj same).1 ▸ begins)

/-- The syntax is unambiguous: what is cut off as a word is settled by the tokens, and so is its tree. -/
theorem cuts_written (room : Nat) : Cuts (Written room) Literal.Edge := by
  induction room with
  | zero => exact cuts_scalar
  | succ room ih =>
    rintro word word' ahead ahead' tree tree' (scalar | frame) (scalar' | frame') edge edge' same
    · exact cuts_scalar scalar scalar' edge edge' same
    · exact absurd same (scalar_ne_frame scalar frame' ahead ahead')
    · exact absurd same.symm (scalar_ne_frame scalar' frame ahead' ahead)
    · exact cuts_frame (fun _ _ => starts_of_written) ih frame frame' same

theorem Syntax.WrittenDocument.unique {limit : Nat} {word : List Char} {tree other : Json}
    (document : WrittenDocument limit word tree) (document' : WrittenDocument limit word other) : tree = other := by
  obtain @⟨before, word, after, tree, blank, written, last⟩ := document
  generalize same : before ++ word ++ after = whole at document'
  obtain ⟨blank', written', last'⟩ := document'
  rw [List.append_assoc, List.append_assoc] at same
  have edge : Literal.Edge [] := by simp [Literal.Edge]
  have starts := starts_of_written written
  have starts' := starts_of_written written'
  have front := dropBlanks blank blank' (starts.solid _) (starts'.solid _) same
  have ends := edge_of_blanks last edge
  have ends' := edge_of_blanks last' edge
  rw [List.append_nil] at ends ends'
  exact (cuts_written limit written written' ends ends' front).1

end Caret.Json
