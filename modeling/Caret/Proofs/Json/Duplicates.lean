import Caret.Proofs.Json.Malformed
import Caret.Proofs.Json.Policies

/-!
What is reported of repeated names. Where names may not be repeated, a value is not read if an object inside of it repeats
one. A list ends before such a value and keeps nothing of what it failed for; so only the members before the first such
value count at the top. If they repeat a name, this is what is reported; and else the object gives up where that member
stands, for a token that is in order there, as an array at the top gives up for its own bracket.
-/

namespace Caret

structure Failure.Tells (failure : Failure) (label message : String) (place : Input) : Prop where
  label : failure.label = label
  message : failure.message = message
  place : failure.place = place.snapshot

theorem Failure.Reports.tells {failure : Failure} {label : String} {place : Input} {token : Char}
    (reports : failure.Reports label place) (first : place.ahead.head? = some token) :
    failure.Tells label s!"Unexpected '{token}'" place := by
  refine ⟨reports.label, ?_, reports.snapshot⟩
  cases reports.finds with
  | nothing ended =>
    have none : place.ahead = [] := by rw [Input.ahead, Input.atEnd_eq_true.mp ended]
    rw [none] at first
    cases first
  | token taken message =>
    rw [Input.ahead_of_next? taken] at first
    cases first
    exact message

namespace Json

open Caret.Parser Syntax

/-! ### Words with repeated names inside -/

/-- A tree that repeats a name is no scalar, so its brackets settle where its word ends. -/
theorem written_eq_of_repeats {room : Nat} {word word' ahead ahead' : List Char} {tree tree' : Json}
    (written : Written room word tree) (written' : Written room word' tree') (repeats : ¬tree.Distinct)
    (same : word ++ ahead = word' ++ ahead') : tree = tree' := by
  cases room with
  | zero => exact absurd (distinct_of_scalar written) repeats
  | succ room =>
    rcases written with scalar | frame
    · exact absurd (distinct_of_scalar scalar) repeats
    · rcases written' with scalar' | frame'
      · exact absurd same.symm (scalar_ne_frame scalar' frame ahead' ahead)
      · exact (cuts_frame (fun _ _ => starts_of_written) (cuts_written room) frame frame' same).1

theorem member_eq_of_repeats {room : Nat} {word word' ahead ahead' : List Char} {member other : String × Json}
    (is : Member (Written room) word member) (is' : Member (Written room) word' other) (repeats : ¬member.2.Distinct)
    (same : word ++ ahead = word' ++ ahead') : member.2 = other.2 := by
  obtain ⟨named, before, after, written, last⟩ := is
  obtain ⟨named', before', after', written', last'⟩ := is'
  simp only [List.append_assoc, List.cons_append] at same
  obtain ⟨-, onward⟩ := cuts_quoted named named' same
  have colon := dropBlanks before before' (solid_cons (by decide) _) (solid_cons (by decide) _) onward
  have front := dropBlanks after after' ((starts_of_written written).solid _) ((starts_of_written written').solid _)
    (List.cons.inj colon).2
  exact written_eq_of_repeats written written' repeats front

/-! ### Replies to values and members -/

def memberReply (room : Nat) : Input → Reply (String × Json) :=
  replyAt ⟨.reject, room + 1⟩ (memberRule (Grammar.ofOptions ⟨.reject, room + 1⟩).value) 1

section Replies

variable {room : Nat} {start here next : Input} {word rest : List Char} {tree value : Json}
  {member found : String × Json}

theorem value_ne_accept (written : Written room word tree) (repeats : ¬tree.Distinct)
    (cut : start.ahead = word ++ rest) :
    replyAt ⟨.reject, room⟩ (Grammar.ofOptions ⟨.reject, room⟩).value 0 start ≠ .accept value next := by
  intro accepted
  have places := places_replyAt ⟨.reject, room⟩ (Grammar.ofOptions ⟨.reject, room⟩).value 0 (.here start)
  rw [accepted] at places
  obtain ⟨-, took⟩ := places.of_accept
  have solid : Solid start.ahead := cut ▸ (starts_of_written written).solid rest
  have place : At room start.ahead 0 start.ahead := ⟨[], rfl, rfl, rfl, Nat.zero_le _⟩
  have meets := asked_value (@value_wired ⟨.reject, room⟩) ((Grammar.ofOptions ⟨.reject, room⟩).wiring.budget start)
    (Gauges.depths [(0, { depth := 0 })]) start.ahead (Nat.zero_le _) solid place
  obtain ⟨whole, front, spaced⟩ := meets.takes _ _ took
  obtain ⟨spelled, blank⟩ := spaced
  obtain ⟨other, written', distinct, -⟩ := (value_iff _ _).mp spelled
  rw [List.append_assoc] at front
  have same := written_eq_of_repeats written written' repeats (cut.symm.trans front.symm)
  exact repeats (same ▸ distinct rfl)

/-- What is taken for a member is one, and repeats no name. -/
theorem member_of_accept (accepted : memberReply room here = .accept found next) :
    ∃ word member, Member (Written room) word member ∧ member.2.Distinct ∧ word ++ next.ahead = here.ahead := by
  have places := places_replyAt ⟨.reject, room + 1⟩ (memberRule (Grammar.ofOptions ⟨.reject, room + 1⟩).value) 1
    (.here here)
  rw [← memberReply, accepted] at places
  obtain ⟨-, took⟩ := places.of_accept
  -- As far as the rules can tell, any bracket may have been opened before the member.
  have outside : At (room + 1) ('[' :: here.ahead) 0 ('[' :: here.ahead) := ⟨[], rfl, rfl, rfl, Nat.zero_le _⟩
  have place : At (room + 1) ('[' :: here.ahead) 1 here.ahead := outside.opened (.inl rfl) (Nat.succ_pos room)
  have asked := @asked_value _ _ _ _ ('[' :: here.ahead) _ (@value_wired ⟨.reject, room + 1⟩)
    ((Grammar.ofOptions ⟨.reject, room + 1⟩).wiring.budget here)
  have level : Gauges.depths [(0, { depth := 1 })] 0 ≤ room + 1 := Nat.succ_le_succ (Nat.zero_le room)
  obtain ⟨word, front, is⟩ := (meets_member asked level place).takes _ _ took
  obtain ⟨member, written, distinct, -⟩ := (member_iff value_iff word found).mp is
  exact ⟨word, member, written, distinct rfl, front⟩

theorem memberReply_ne_accept (is : Member (Written room) word member) (repeats : ¬member.2.Distinct)
    (cut : here.ahead = word ++ rest) : memberReply room here ≠ .accept found next := by
  intro accepted
  obtain ⟨word', other, is', distinct, front⟩ := member_of_accept accepted
  exact repeats (member_eq_of_repeats is is' repeats (cut.symm.trans front.symm) ▸ distinct)

theorem memberReply_of_distinct (is : Member (Written room) word member) (distinct : member.2.Distinct)
    (cut : here.ahead = word ++ rest) (stopper : Stopper rest) :
    memberReply room here = .accept (gatheredMember member) (here.advance word.length) := by
  have places := places_replyAt ⟨.reject, room + 1⟩ (memberRule (Grammar.ofOptions ⟨.reject, room + 1⟩).value) 1
    (.here here)
  have spelled : Member (Syntax.Value .reject (room + 1 - Gauges.depths [(0, { depth := 1 })] 0)) word
      (gatheredMember member) := (member_iff value_iff word _).mpr ⟨member, is, fun _ => distinct, rfl⟩
  have enough := Wiring.length_lt_budget (Grammar.ofOptions ⟨.reject, room + 1⟩).wiring here
  have short : word.length < (Grammar.ofOptions ⟨.reject, room + 1⟩).wiring.budget here := by
    rw [cut, List.length_append] at enough
    omega
  have given := given_value (@value_wired ⟨.reject, room + 1⟩)
    ((Grammar.ofOptions ⟨.reject, room + 1⟩).wiring.budget here)
  have taken := answer_member given spelled short stopper
  change ((memberRule (Grammar.ofOptions ⟨.reject, room + 1⟩).value).trace _ _ _).answer = _ at taken
  rw [cut, taken, ← Input.ahead_advance_of_append cut] at places
  exact places.eq_accept (here.leads_advance _)

end Replies

/-! ### How far the members are read -/

/-- Members are read up to the first one with a repeated name inside, or to the last one, and nothing after them. -/
structure Halts (Spelled : List Char → List (String × Json) → Prop) (here : Input) (front rest : List (String × Json))
    (found : List (String × Json)) (stop : Input) : Prop where
  found : found = front.map gatheredMember
  each : ∀ member ∈ front, member.2.Distinct
  next : ∀ member ∈ rest.head?, ¬member.2.Distinct
  leads : here.Leads stop
  spelled : ∃ word, Spelled word front ∧ here.ahead = word ++ stop.ahead

def leading : List (String × Json) → Char
  | [] => '"'
  | _ :: _ => ','

section Walk

variable {room : Nat} {here stop : Input} {word after : List Char} {members found : List (String × Json)}

theorem member_solid {member : String × Json} {tail : List Char} (is : Member (Written room) word member) :
    Solid (word ++ tail) := by
  obtain ⟨first, rest, rfl, solid, -⟩ := starts_of_member _ _ is
  exact solid_cons solid _

/-- By induction on the rounds: each one that goes on has taken a member without repetitions. -/
theorem goesOn_halts (more : More (Member (Written room)) word members) (cut : here.ahead = word ++ '\x7d' :: after)
    (goes : GoesOn (memberReply room) here found stop) :
    ∃ front rest, members = front ++ rest ∧ Halts (More (Member (Written room))) here front rest found stop ∧
      stop.ahead.head? = some (if rest = [] then '\x7d' else ',') := by
  induction goes generalizing word members with
  | @last here broke =>
    refine ⟨[], members, rfl, ⟨rfl, List.forall_mem_nil _, ?_, .here here, [], .nil, rfl⟩, ?_⟩
    · rintro member first distinct
      cases more with
      | nil => cases first
      | @cons blanks word rest _ _ blank is more =>
        cases first
        simp only [List.cons_append, List.append_assoc] at cut
        obtain ⟨next, comma, inside⟩ := Input.next?_of_ahead cut
        obtain ⟨failure, rejected⟩ := broke next comma
        have past : next.pastBlanks.ahead = word ++ (rest ++ '\x7d' :: after) := by
          rw [Input.ahead_pastBlanks, inside, dropWhile_blanks blank (member_solid is)]
        rw [memberReply_of_distinct is distinct past (stopper_more (by decide) more after)] at rejected
        cases rejected
    · cases more <;> rw [cut] <;> rfl
  | @further here next last stop value values comma element goes ih =>
    cases more with
    | nil =>
      rw [Input.ahead_of_next? comma] at cut
      cases (List.cons.inj cut).1
    | @cons blanks word rest member others blank is more =>
      rw [Input.ahead_of_next? comma] at cut
      simp only [List.cons_append, List.append_assoc, List.cons.injEq, true_and] at cut
      have past : next.pastBlanks.ahead = word ++ (rest ++ '\x7d' :: after) := by
        rw [Input.ahead_pastBlanks, cut, dropWhile_blanks blank (member_solid is)]
      have distinct : member.2.Distinct :=
        Classical.byContradiction fun repeats => memberReply_ne_accept is repeats past element
      rw [memberReply_of_distinct is distinct past (stopper_more (by decide) more after)] at element
      cases element
      obtain ⟨front, others', rfl, ⟨rfl, each, first, leads, tail, spelled, same⟩, token⟩ :=
        ih more (Input.ahead_advance_of_append past)
      have onward : here.Leads stop :=
        .step comma (next.leads_pastBlanks.trans ((next.pastBlanks.leads_advance _).trans leads))
      refine ⟨member :: front, others', rfl,
        ⟨rfl, List.forall_mem_cons.mpr ⟨distinct, each⟩, first, onward, _, .cons blank is spelled, ?_⟩, token⟩
      rw [Input.ahead_advance_of_append past] at same
      rw [Input.ahead_of_next? comma, cut, same]
      simp

theorem readsOn_halts (listed : Listed (Member (Written room)) word members)
    (cut : here.ahead = word ++ '\x7d' :: after) (reads : ReadsOn (memberReply room) here found stop) :
    ∃ front rest, members = front ++ rest ∧ Halts (Listed (Member (Written room))) here front rest found stop ∧
      stop.ahead.head? = some (if rest = [] then '\x7d' else leading front) := by
  cases reads with
  | none broke =>
    refine ⟨[], members, rfl, ⟨rfl, List.forall_mem_nil _, ?_, .here here, [], .nil, rfl⟩, ?_⟩
    · rintro member first distinct
      cases listed with
      | nil => cases first
      | @cons word rest _ _ is more =>
        cases first
        rw [List.append_assoc] at cut
        rw [memberReply_of_distinct is distinct cut (stopper_more (by decide) more after)] at broke
        cases broke
    · cases listed with
      | nil =>
        rw [cut]
        rfl
      | cons is more =>
        obtain ⟨⟨inside⟩, blank, blank', written, blank''⟩ := is
        rw [cut]
        rfl
  | some element goes =>
    cases listed with
    | nil =>
      obtain ⟨word, member, is, -, front⟩ := member_of_accept element
      exact absurd (front.trans cut) ((starts_of_member _ _ is).ne_closer (by decide) _ _)
    | @cons word rest member others is more =>
      rw [List.append_assoc] at cut
      have distinct : member.2.Distinct :=
        Classical.byContradiction fun repeats => memberReply_ne_accept is repeats cut element
      rw [memberReply_of_distinct is distinct cut (stopper_more (by decide) more after)] at element
      cases element
      obtain ⟨front, others', rfl, ⟨rfl, each, first, leads, tail, spelled, same⟩, token⟩ :=
        goesOn_halts more (Input.ahead_advance_of_append cut) goes
      refine ⟨member :: front, others', rfl,
        ⟨rfl, List.forall_mem_cons.mpr ⟨distinct, each⟩, first, (here.leads_advance _).trans leads, _,
          .cons is spelled, ?_⟩, token⟩
      rw [Input.ahead_advance_of_append cut] at same
      rw [cut, same, List.append_assoc]

end Walk

/-! ### What is reported -/

theorem firstRepeat_of_gathered {name : String} {members : List (String × Json)}
    (again : Members.FirstRepeat name (members.map gatheredMember)) : Members.FirstRepeat name members := by
  obtain ⟨before, value, after, split, distinct, earlier⟩ := again
  obtain ⟨front, back, rfl, rfl, same⟩ := List.map_eq_append_iff.mp split
  obtain ⟨⟨other, tree⟩, rest, rfl, here, -⟩ := List.map_eq_cons_iff.mp same
  obtain rfl : other = name := congrArg Prod.fst here
  rw [names_map_gatheredMember] at distinct earlier
  exact ⟨front, tree, rest, rfl, distinct, earlier⟩

/-- What is reported of a tree that repeats a name, where that is not allowed. Of an object it is a name that its members
repeat before any of them repeats one inside, and it is shown at the first member. Where these members repeat no name, it
is the place where they end, before the member that repeats one inside, and not the name. Of an array it is its bracket. -/
inductive Reported (limit : Nat) (start : Input) (failure : Failure) : Json → Prop
  | array {items : List Json} (opened : start.ahead.head? = some '[')
    (tells : failure.Tells "object" "Unexpected '['" start) : Reported limit start failure (.array items)
  | named {inside : Input} {front rest : List (String × Json)} {name : String}
    (opened : start.next? = some ('\x7b', inside)) (each : ∀ member ∈ front, member.2.Distinct)
    (next : ∀ member ∈ rest.head?, ¬member.2.Distinct) (again : Members.FirstRepeat name front)
    (tells : failure.Tells "object" s!"Duplicate key {shown name}" inside.pastBlanks) :
    Reported limit start failure (.object (front ++ rest))
  | unnamed {inside : Input} {word : List Char} {front rest : List (String × Json)} {member : String × Json}
    (opened : start.next? = some ('\x7b', inside)) (each : ∀ member ∈ front, member.2.Distinct)
    (next : ¬member.2.Distinct) (names : (front.map Prod.fst).Nodup)
    (listed : Listed (Member (Written (limit - 1))) word front) (before : word <+: inside.pastBlanks.ahead)
    (tells : failure.Tells "object" s!"Unexpected '{leading front}'" (inside.pastBlanks.advance word.length)) :
    Reported limit start failure (.object (front ++ member :: rest))

section Objects

variable {room : Nat} {start inside stop : Input} {word after : List Char} {members found : List (String × Json)}
  {failure : Failure}

/-- An object that is left unfinished for what its members repeat. -/
theorem reported_of_unfinished (listed : Listed (Member (Written room)) word members)
    (cut : inside.pastBlanks.ahead = word ++ '\x7d' :: after) (opened : start.next? = some ('\x7b', inside))
    (unfinished : Unfinished ⟨.reject, room + 1⟩ start failure) :
    Reported (room + 1) start failure (.object members) := by
  cases unfinished with
  | repeated opened' read _ again label message place =>
    cases opened.symm.trans opened'
    obtain ⟨front, rest, rfl, halts, -⟩ := readsOn_halts listed cut read
    exact .named opened halts.each halts.next (firstRepeat_of_gathered (halts.found ▸ again)) ⟨label, message, place⟩
  | unclosed opened' read distinct other reports =>
    cases opened.symm.trans opened'
    obtain ⟨front, rest, rfl, ⟨rfl, each, next, leads, word, spelled, same⟩, token⟩ := readsOn_halts listed cut read
    cases rest with
    | nil =>
      obtain ⟨rest, taken⟩ := Input.head?_ahead.mp token
      exact absurd taken (other rest)
    | cons member rest =>
      have names := distinct rfl
      rw [names_map_gatheredMember] at names
      rw [leads.unique (inside.pastBlanks.leads_advance word.length) (Input.ahead_advance_of_append same).symm]
        at reports token
      exact .unnamed opened each (next member rfl) names spelled ⟨_, same.symm⟩ (reports.tells token)

end Objects

/-- By the first bracket: no value is read there, so an array is taken for an object that does not begin, and an object
is left unfinished. -/
theorem reported_of_ways {limit : Nat} {start : Input} {failure : Failure} {word after : List Char} {tree : Json}
    (written : Written limit word tree) (repeats : ¬tree.Distinct) (cut : start.ahead = word ++ after)
    (ways : Trailing ⟨.reject, limit⟩ start failure ∨ Missing ⟨.reject, limit⟩ start failure ∨
      Unfinished ⟨.reject, limit⟩ start failure) : Reported limit start failure tree := by
  have unread : ¬Trailing ⟨.reject, limit⟩ start failure := by
    rintro ⟨read, -⟩
    exact value_ne_accept written repeats cut read
  cases limit with
  | zero => exact absurd (distinct_of_scalar written) repeats
  | succ room =>
    rcases written with scalar | frame
    · exact absurd (distinct_of_scalar scalar) repeats
    · cases frame with
      | array blank listed =>
        have first : start.ahead.head? = some '[' := by rw [cut]; rfl
        rcases ways with trailing | missing | unfinished
        · exact absurd trailing unread
        · exact .array first (missing.reports.tells first)
        · obtain ⟨inside, opened⟩ := unfinished.opened
          rw [Input.ahead_of_next? opened] at first
          exact absurd (Option.some.inj first) (by decide)
      | @object blanks word members blank listed =>
        simp only [List.cons_append, List.append_assoc] at cut
        obtain ⟨inside, opened, onward⟩ := Input.next?_of_ahead cut
        have solid : Solid (word ++ '\x7d' :: after) :=
          solid_listed (by decide) (fun _ _ _ is => member_solid is) listed after
        have past : inside.pastBlanks.ahead = word ++ '\x7d' :: after := by
          rw [Input.ahead_pastBlanks, onward]
          exact dropWhile_blanks blank solid
        rcases ways with trailing | missing | unfinished
        · exact absurd trailing unread
        · exact absurd opened (missing.unopened inside)
        · exact reported_of_unfinished listed past opened unfinished

/-- Where a text is read only if names may be repeated, its one tree repeats a name, and without that permission it
breaks the grammar; but a repeated name is reported only of an object at the top. -/
theorem repeats_reported {text : String} {limit : Nat} {value : Json}
    (accepted : parse text ⟨.lastWins, limit⟩ = .ok value)
    (refused : ∀ other, parse text ⟨.reject, limit⟩ ≠ .ok other) :
    ∃ tree failure, WrittenDocument limit (Input.ofText text).tokens tree ∧ ¬tree.Distinct ∧
      parse text ⟨.reject, limit⟩ = .error (.malformed failure) ∧
        Reported limit (Input.ofText text).pastBlanks failure tree := by
  obtain ⟨tree, document, -, rfl⟩ := tree_of_parse accepted
  have repeats : ¬tree.Distinct := fun distinct => refused _ (parse_of_tree document fun _ => distinct)
  obtain ⟨failure, failed⟩ := malformed_of_repeats accepted document repeats
  refine ⟨tree, failure, document, repeats, failed, ?_⟩
  have ways := trailing_or_missing_or_unfinished failed
  have start := (Input.ofText text).ahead_pastBlanks
  rw [Input.tokens_eq_ahead] at document
  generalize (Input.ofText text).ahead = tokens at document start
  obtain ⟨blank, written, blank'⟩ := document
  rw [List.append_assoc, dropWhile_blanks blank ((starts_of_written written).solid _)] at start
  exact reported_of_ways written repeats start ways

def nestedRepeat : String :=
  "\x7b\"a\":\x7b\"b\":[],\"b\":[]\x7d\x7d"

theorem repeats_reported_nested :
    ∃ tree failure, WrittenDocument 3 (Input.ofText nestedRepeat).tokens tree ∧
      Reported 3 (Input.ofText nestedRepeat).pastBlanks failure tree := by
  have last : (parse nestedRepeat ⟨.lastWins, 3⟩).isOk = true := by decide +kernel
  have refused : (parse nestedRepeat ⟨.reject, 3⟩).isOk = false := by decide +kernel
  obtain ⟨value, accepted⟩ := exists_of_isOk last
  obtain ⟨tree, failure, document, -, -, reported⟩ := repeats_reported accepted fun other taken => by
    rw [taken] at refused
    cases refused
  exact ⟨tree, failure, document, reported⟩

def error? : Except Error Json → Option Error
  | .ok _ => none
  | .error error => some error

theorem eq_error_of_error? {result : Except Error Json} {error : Error} (failed : error? result = some error) :
    result = .error error := by
  cases result with
  | ok value => cases failed
  | error other => rw [Option.some.inj failed]

/-- The name that the inner object repeats is not reported: the failure is for the first name of the outer one. -/
theorem nestedRepeat_unnamed :
    (parse nestedRepeat ⟨.lastWins, 3⟩).isOk = true ∧
      ∃ failure, parse nestedRepeat ⟨.reject, 3⟩ = .error (.malformed failure) ∧ failure.position = ⟨0, 1⟩ ∧
        ∀ name : String, failure.message ≠ s!"Duplicate key {shown name}" := by
  have failed : error? (parse nestedRepeat ⟨.reject, 3⟩) =
      some (.malformed ⟨"object", .unexpected '"', ⟨Line.ofText nestedRepeat, ⟨0, 1⟩⟩⟩) := by decide +kernel
  have message (token : Char) : s!"Unexpected '{token}'" = "Unexpected '" ++ (toString token ++ "'") :=
    String.append_assoc
  refine ⟨by decide +kernel, _, eq_error_of_error? failed, rfl, fun name same => ?_⟩
  exact Text.append_ne_append (by decide) (by decide) _ _ ((message '"').symm.trans same)

end Json

end Caret
