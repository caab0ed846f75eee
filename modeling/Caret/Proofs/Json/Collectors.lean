import Caret.Json.Grammar
import Caret.Proofs.Json.Members
import Caret.Proofs.Repetition

/-!
Members brought together, one by one. Both loops come to the object that the members make, as long as no name is
refused: the one has a line in its log for every name that occurs again, the other ends at the first of them.
-/

namespace Caret.Json

open Members

variable {name message : String} {members object : List (String × Json)}

theorem isSome_find?_collect : (find? name (collect members)).isSome = true ↔ name ∈ members.map Prod.fst :=
  isSome_find?.trans ((gathers_collect members).names name)

/-! ### Later members win -/

theorem lastWins_append_singleton (members : List (String × Json)) (member : String × Json) :
    lastWins (members ++ [member]) = overwrite (lastWins members) member := by
  simp [lastWins]

theorem object_lastWins (members : List (String × Json)) : (lastWins members).1 = collect members := by
  induction members using List.reverseRecOn with
  | nil => rfl
  | append_singleton members member ih =>
    rw [lastWins_append_singleton, overwrite, ih, collect_append_singleton]

theorem log_lastWins (members : List (String × Json)) :
    (lastWins members).2 = (recurring (members.map Prod.fst)).map duplicateKey := by
  induction members using List.reverseRecOn with
  | nil => rfl
  | append_singleton members member ih =>
    rw [lastWins_append_singleton, overwrite, object_lastWins, ih, List.map_append, List.map_singleton,
      recurring_append_singleton, List.map_append]
    by_cases known : member.1 ∈ members.map Prod.fst
    · simp only [if_pos (isSome_find?_collect.mpr known), if_pos known, List.map_singleton]
    · simp only [if_neg (mt isSome_find?_collect.mp known), if_neg known, List.map_nil, List.append_nil]

/-! ### Names that occur again are refused -/

theorem distinctMembers_append (members more : List (String × Json)) :
    distinctMembers (members ++ more) = (distinctMembers members).bind fun object => more.foldlM addDistinct object :=
  List.foldlM_append

theorem distinctMembers_of_nodup (distinct : (members.map Prod.fst).Nodup) :
    distinctMembers members = .ok (collect members) := by
  induction members using List.reverseRecOn with
  | nil => rfl
  | append_singleton members member ih =>
    obtain ⟨fresh, distinct⟩ := (nodup_append_singleton members member).mp distinct
    rw [distinctMembers_append, ih distinct, collect_append_singleton]
    simp [Except.bind, addDistinct, mt isSome_find?_collect.mp fresh]

/-- The loop gets as far as the first name that occurs again. -/
theorem distinctMembers_of_firstRepeat (again : FirstRepeat name members) :
    distinctMembers members = .error s!"Duplicate key {shown name}" := by
  obtain ⟨before, value, after, rfl, distinct, earlier⟩ := again
  have refused : addDistinct (collect before) (name, value) = .error s!"Duplicate key {shown name}" :=
    if_pos (isSome_find?_collect.mpr earlier)
  rw [distinctMembers_append, distinctMembers_of_nodup distinct, Except.bind, List.foldlM_cons, refused]
  rfl

theorem distinctMembers_eq_ok :
    distinctMembers members = .ok object ↔ (members.map Prod.fst).Nodup ∧ object = collect members := by
  by_cases distinct : (members.map Prod.fst).Nodup
  · simp [distinctMembers_of_nodup distinct, distinct, eq_comm]
  · obtain ⟨name, again⟩ := exists_firstRepeat distinct
    simp [distinctMembers_of_firstRepeat again, distinct]

theorem firstRepeat_of_distinctMembers (refused : distinctMembers members = .error message) :
    ∃ name, FirstRepeat name members ∧ message = s!"Duplicate key {shown name}" := by
  by_cases distinct : (members.map Prod.fst).Nodup
  · rw [distinctMembers_of_nodup distinct] at refused
    cases refused
  · obtain ⟨name, again⟩ := exists_firstRepeat distinct
    rw [distinctMembers_of_firstRepeat again] at refused
    exact ⟨name, again, (Except.error.inj refused).symm⟩

theorem distinctMembers_eq_error :
    distinctMembers members = .error message ↔
      ∃ index name, FirstRecurs (members.map Prod.fst) index name ∧ message = s!"Duplicate key {shown name}" := by
  constructor
  · intro refused
    obtain ⟨name, again, rfl⟩ := firstRepeat_of_distinctMembers refused
    obtain ⟨index, first⟩ := again.firstRecurs
    exact ⟨index, name, first, rfl⟩
  · rintro ⟨index, name, first, rfl⟩
    obtain ⟨second, again⟩ := exists_firstRepeat first.recurs.not_nodup
    obtain ⟨other, too⟩ := again.firstRecurs
    rw [distinctMembers_of_firstRepeat again, first.unique too]

/-! ### Policies -/

section Runs

variable {Ref : Type → Type} (follow : Follow Ref) (parser : Parser Ref (List (String × Json))) (input : Input)
  (gauges : Gauges)

theorem run_collected_lastWins : (collected .lastWins parser).rule.run follow input gauges =
    (parser.rule.run follow input gauges).bind fun members rest middle =>
      ⟨.accept (collect members) rest, middle, (recurring (members.map Prod.fst)).map duplicateKey⟩ := by
  calc
    (collected .lastWins parser).rule.run follow input gauges
    _ = ((parser.rule.run follow input gauges).bind fun members rest middle =>
          ((Rule.report (lastWins members).2).map fun _ => members).run follow rest middle).mapReply
            (.map fun members => (lastWins members).1) := Parser.run_map follow input gauges _ _
    _ = (parser.rule.run follow input gauges).bind fun members rest middle =>
          ⟨.accept (collect members) rest, middle, (recurring (members.map Prod.fst)).map duplicateKey⟩ := by
      simp only [Outcome.mapReply_bind, Parser.run_map, Outcome.mapReply_map_map, ← object_lastWins, ← log_lastWins]
      rfl

/-- Members are brought together as the options have it. Let later members win, and each name has the value of its last
member, with one line in the log for every member whose name occurs before it, in their order. Refuse what occurs again,
and the object is the same one where the names are distinct; where they are not, the members are refused for the name of
the least index at which a name occurs that occurs before it. -/
theorem collectors_settle :
    ((collected .lastWins parser).rule.run follow input gauges =
      (parser.rule.run follow input gauges).bind fun members rest middle =>
        ⟨.accept (collect members) rest, middle, (recurring (members.map Prod.fst)).map duplicateKey⟩) ∧
    ((collected .reject parser).rule.run follow input gauges =
      (parser.rule.run follow input gauges).bind fun members rest middle =>
        ⟨Rule.runRefined parser.label input (distinctMembers members) rest, middle, []⟩) ∧
    ∀ members : List (String × Json),
      (∀ object, Gathers members object ↔ object = collect members) ∧
      lastWins members = (collect members, (recurring (members.map Prod.fst)).map duplicateKey) ∧
      (∀ object, distinctMembers members = .ok object ↔ (members.map Prod.fst).Nodup ∧ Gathers members object) ∧
      ∀ message, distinctMembers members = .error message ↔
        ∃ index name, FirstRecurs (members.map Prod.fst) index name ∧ message = s!"Duplicate key {shown name}" := by
  refine ⟨run_collected_lastWins follow parser input gauges, rfl, fun members => ⟨fun object => gathers_iff, ?_, ?_, ?_⟩⟩
  · exact Prod.ext (object_lastWins members) (log_lastWins members)
  · intro object
    rw [distinctMembers_eq_ok, gathers_iff]
  · intro message
    exact distinctMembers_eq_error

end Runs

end Caret.Json
