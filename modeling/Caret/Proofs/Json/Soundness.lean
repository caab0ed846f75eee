import Caret.Json.Document
import Caret.Proofs.Contracts
import Caret.Proofs.Json.Brackets
import Caret.Proofs.Json.Collectors
import Caret.Proofs.Json.Scalars

/-!
What the rules of a grammar take are words of the syntax, and the first container that they refuse is the first that
opens past the limit. Both are shown together along the rules: at every place that the rules come to, outside of strings
and after whole words, as many brackets are open as the gauge counts.
-/

namespace Caret.Json

open Caret.Parser Syntax

def Solid (ahead : List Char) : Prop :=
  ∀ char ∈ ahead.head?, Text.isBlank char = false

theorem solid_cons {first : Char} (solid : Text.isBlank first = false) (ahead : List Char) : Solid (first :: ahead) := by
  intro char same
  cases same
  exact solid

theorem solid_dropWhile (ahead : List Char) : Solid (ahead.dropWhile Text.isBlank) := by
  intro char first
  have found := List.head?_dropWhile_not Text.isBlank ahead
  rw [first] at found
  simpa using found

theorem Solid.dropWhile {ahead : List Char} (solid : Solid ahead) : ahead.dropWhile Text.isBlank = ahead := by
  cases ahead with
  | nil => rfl
  | cons token ahead => exact List.dropWhile_cons_of_neg (by simp [solid token rfl])

/-- A place in a document outside of strings, with so many brackets open and never more than the limit before. -/
def At (limit : Nat) (whole : List Char) (depth : Nat) (ahead : List Char) : Prop :=
  ∃ front, front ++ ahead = whole ∧ (Brackets.after front).mode = .plain ∧ (Brackets.after front).opened = depth ∧
    (Brackets.after front).peak ≤ limit

structure Refused (limit : Nat) (whole : List Char) (stop : Stop) : Prop where
  reason : stop.reason = .tooDeep limit
  place : At limit whole limit stop.ahead
  bracket : ∃ rest, stop.label = "array" ∧ stop.ahead = '[' :: rest ∨
    stop.label = "object" ∧ stop.ahead = '\x7b' :: rest

section Places

variable {limit depth : Nat} {whole ahead word rest : List Char}

theorem At.past {room : Nat} (place : At limit whole depth ahead) (taken : word ++ rest = ahead)
    (calm : Brackets.Calm room word) (fits : depth + room ≤ limit) : At limit whole depth rest := by
  obtain ⟨front, same, plain, opened, low⟩ := place
  obtain ⟨peak, equal, under⟩ := calm (Brackets.after front) plain
  have further : Brackets.after (front ++ word) = { Brackets.after front with peak } := by
    rw [Brackets.after, Brackets.through_append]
    exact equal
  refine ⟨front ++ word, by rw [List.append_assoc, taken, same], ?_, ?_, ?_⟩
  · rw [further, plain]
  · rw [further, opened]
  · rw [further]
    show peak ≤ limit
    omega

theorem At.pastBlanks {blanks : List Char} (place : At limit whole depth ahead) (taken : blanks ++ rest = ahead)
    (blank : Blanks blanks) (fits : depth ≤ limit) : At limit whole depth rest :=
  have calm : Brackets.Calm 0 blanks := Brackets.calm_blanks blank
  place.past taken calm fits

theorem At.opened {opener : Char} (place : At limit whole depth (opener :: rest)) (opening : Brackets.Opens opener)
    (below : depth < limit) : At limit whole (depth + 1) rest := by
  obtain ⟨front, same, plain, opened, low⟩ := place
  have quote : opener ≠ '"' := by rcases opening with rfl | rfl <;> decide
  have further : Brackets.after (front ++ [opener]) = { Brackets.after front with
      opened := depth + 1, peak := max (Brackets.after front).peak (depth + 1) } := by
    rw [Brackets.after, Brackets.through_append]
    show (Brackets.after front).step opener = _
    simp [Brackets.step, plain, quote, opening, opened]
  refine ⟨front ++ [opener], by rw [List.append_assoc]; exact same, ?_, ?_, ?_⟩
  · rw [further, plain]
  · rw [further]
  · rw [further]
    show max _ _ ≤ limit
    omega

end Places

section Rules

variable {Ref : Type → Type} {α : Type} (ask : Ask Ref) {gauge limit depth : Nat} {depths : Depths} {whole : List Char}
  {refused : Stop → Prop}

/-! ### Tokens -/

theorem meets_spaces (ahead : List Char) :
    (spaces.trace ask depths ahead).Meets gauge
      (fun blanks rest => blanks ++ rest = ahead ∧ Blanks blanks ∧ Solid rest) refused := by
  rw [trace_spaces]
  apply Trace.meets_took
  exact ⟨List.takeWhile_append_dropWhile, List.all_eq_true.mp List.all_takeWhile, solid_dropWhile ahead⟩

def Past (expected : Char) (ahead rest : List Char) : Prop :=
  ∃ blanks, expected :: (blanks ++ rest) = ahead ∧ Blanks blanks ∧ Solid rest

theorem meets_token (expected : Char) (ahead : List Char) :
    ((token expected).trace ask depths ahead).Meets gauge (fun _ rest => Past expected ahead rest) refused := by
  unfold token
  rw [trace_keepLeft, trace_char]
  apply (Trace.reads_satisfy _ _ ahead).meets.bind
  intro char rest taken
  obtain ⟨word, front, same, accepted⟩ := taken
  obtain rfl : char = expected := by simpa using accepted
  apply (meets_spaces ask rest).map
  intro blanks last taken
  obtain ⟨back, blank, solid⟩ := taken
  refine ⟨blanks, ?_, blank, solid⟩
  rw [back, ← front, same]
  rfl

/-! ### Lists -/

def Further (Element : List Char → α → Prop) (ahead : List Char) (values : List α) (rest : List Char) : Prop :=
  ∃ word, word ++ rest = ahead ∧ More Element word values

section Lists

variable {Element : List Char → α → Prop} {element : Parser Ref α} {room : Nat}
  (calm : ∀ word value, Element word value → Brackets.Calm room word) (fits : depth + room ≤ limit)
  (each : ∀ ahead, Solid ahead → At limit whole depth ahead → (element.trace ask depths ahead).Meets gauge
    (fun value rest => ∃ word, word ++ rest = ahead ∧ Element word value) refused)

include calm fits each

theorem meets_further {ahead : List Char} (place : At limit whole depth ahead) :
    (((token ',').keepRight element).trace ask depths ahead).Meets gauge (fun value rest =>
      At limit whole depth rest ∧
        ∀ values last, Further Element rest values last → Further Element ahead (value :: values) last) refused := by
  rw [trace_keepRight]
  apply (meets_token ask ',' ahead).bind
  intro comma rest taken
  obtain ⟨blanks, front, blank, solid⟩ := taken
  have comma : Brackets.Calm room (',' :: blanks) := .cons (by decide) (Brackets.calm_blanks blank)
  have middle : At limit whole depth rest := place.past front comma fits
  apply (each rest solid middle).mono
  intro value last taken
  obtain ⟨word, back, spelled⟩ := taken
  constructor
  · exact middle.past back (calm word value spelled) fits
  · intro values final collected
    obtain ⟨more, ending, further⟩ := collected
    refine ⟨',' :: (blanks ++ word ++ more), ?_, .cons blank spelled further⟩
    rw [← front, ← back, ← ending]
    simp

theorem meets_sepBy {ahead : List Char} (solid : Solid ahead) (place : At limit whole depth ahead) :
    ((element.sepBy (token ',')).trace ask depths ahead).Meets gauge
      (fun values rest => ∃ word, word ++ rest = ahead ∧ Listed Element word values) refused := by
  rw [trace_sepBy, trace_sepBy1]
  apply Trace.Meets.recover _ (Trace.meets_took ⟨[], rfl, .nil⟩)
  apply (each ahead solid place).bind
  intro value rest taken
  obtain ⟨word, front, spelled⟩ := taken
  have onward : At limit whole depth rest := place.past front (calm word value spelled) fits
  have others := Trace.Meets.many (At limit whole depth) (Further Element) ((token ',').keepRight element).label _
    (fun ahead _ => ⟨[], rfl, .nil⟩) (fun ahead place => meets_further ask calm fits each place) rest onward
  apply others.map
  intro values last taken
  obtain ⟨more, back, further⟩ := taken
  exact ⟨word ++ more, by rw [List.append_assoc, back, front], .cons spelled further⟩

end Lists

/-! ### Containers -/

/-- What a container takes, between its brackets and with the blanks after it. -/
theorem meets_between {opening : Char} (closing : Char) {begin : Parser Ref Char} (inner : Parser Ref α)
    {Word : List Char → α → Prop} {depths : Depths} {ahead : List Char}
    (enters : (begin.trace ask depths ahead).Meets gauge (fun _ rest => Past opening ahead rest) refused)
    (inside : ∀ rest, Past opening ahead rest → (inner.trace ask depths rest).Meets gauge
      (fun value last => ∃ word, word ++ last = rest ∧ Word word value) refused) :
    ((between begin inner (token closing)).trace ask depths ahead).Meets gauge
      (fun value rest => ∃ first word last, (opening :: (first ++ word ++ [closing])) ++ last ++ rest = ahead ∧
        Blanks first ∧ Word word value ∧ Blanks last) refused := by
  rw [trace_between]
  apply enters.bind
  intro char rest entered
  apply (inside rest entered).bind
  intro value middle taken
  obtain ⟨word, inward, spelled⟩ := taken
  apply (meets_token ask closing middle).map
  intro char last left
  obtain ⟨first, front, blank, solid⟩ := entered
  obtain ⟨blanks, back, blank', solid'⟩ := left
  refine ⟨first, word, blanks, ?_, blank, spelled, blank'⟩
  rw [← front, ← inward, ← back]
  simp

end Rules

/-! ### Values -/

theorem Syntax.Blanks.append {word more : List Char} (blank : Blanks word) (further : Blanks more) :
    Blanks (word ++ more) := by
  intro char member
  exact (List.mem_append.mp member).elim (blank char) (further char)

theorem Syntax.Spaced.extend {Value : List Char → Json → Prop} {word more : List Char} {value : Json}
    (spaced : Spaced Value word value) (blank : Blanks more) : Spaced Value (word ++ more) value := by
  obtain ⟨spelled, blank'⟩ := spaced
  rw [List.append_assoc]
  exact .mk spelled (blank'.append blank)

theorem Syntax.Spaced.of_container {policy : DuplicateKeys} {limit depth : Nat} {word blanks : List Char} {value : Json}
    (below : depth < limit) (container : Container (Syntax.Value policy (limit - (depth + 1))) policy word value)
    (blank : Blanks blanks) : Spaced (Syntax.Value policy (limit - depth)) (word ++ blanks) value := by
  have room : limit - depth = limit - (depth + 1) + 1 := by omega
  rw [room]
  exact .mk (.inr container) blank

def Asked (options : Options) (gauge : Nat) (whole : List Char) (run : Depths → List Char → Trace Json) : Prop :=
  ∀ depths ahead, depths gauge ≤ options.maxDepth → Solid ahead →
    At options.maxDepth whole (depths gauge) ahead →
    (run depths ahead).Meets gauge (fun value rest => ∃ word, word ++ rest = ahead ∧
      Spaced (Value options.duplicateKeys (options.maxDepth - depths gauge)) word value) (Refused options.maxDepth whole)

section Values

variable {Ref : Type → Type} {ask : Ask Ref} {gauge : Nat} {options : Options} {depths : Depths}
  {whole ahead : List Char} {value : Parser Ref Json} (asked : Asked options gauge whole (value.trace ask))

include asked

theorem meets_item (below : depths gauge ≤ options.maxDepth) (solid : Solid ahead)
    (place : At options.maxDepth whole (depths gauge) ahead) :
    ((value.keepLeft spaces).trace ask depths ahead).Meets gauge (fun value rest => ∃ word, word ++ rest = ahead ∧
      Spaced (Value options.duplicateKeys (options.maxDepth - depths gauge)) word value)
      (Refused options.maxDepth whole) := by
  rw [trace_keepLeft]
  apply (asked depths ahead below solid place).bind
  intro value rest taken
  obtain ⟨word, front, spaced⟩ := taken
  apply (meets_spaces ask rest).map
  intro blanks last taken
  obtain ⟨back, blank, unblank⟩ := taken
  exact ⟨word ++ blanks, by rw [List.append_assoc, back, front], spaced.extend blank⟩

theorem meets_member (below : depths gauge ≤ options.maxDepth)
    (place : At options.maxDepth whole (depths gauge) ahead) :
    ((((quotedString.keepLeft spaces).keepLeft (token ':')).andThen (value.keepLeft spaces)).trace ask depths
      ahead).Meets gauge (fun member rest => ∃ word, word ++ rest = ahead ∧
        Member (Value options.duplicateKeys (options.maxDepth - depths gauge)) word member)
      (Refused options.maxDepth whole) := by
  have level : depths gauge + 0 ≤ options.maxDepth := below
  rw [trace_andThen, trace_keepLeft, trace_keepLeft]
  simp only [Trace.map, Trace.bind_assoc, Trace.bind_took]
  apply (reads_quotedString ask depths ahead).meets.bind
  intro name rest taken
  obtain ⟨word, front, named⟩ := taken
  have place := place.past front (Brackets.calm_quoted named) level
  apply (meets_spaces ask rest).bind
  intro blanks rest taken
  obtain ⟨spread, blank, unblank⟩ := taken
  have place := place.pastBlanks spread blank level
  apply (meets_token ask ':' rest).bind
  intro colon rest taken
  obtain ⟨after, split, blank', solid⟩ := taken
  have colon : Brackets.Calm 0 (':' :: after) := .cons (by decide) (Brackets.calm_blanks blank')
  have place := place.past split colon level
  apply (meets_item asked below solid place).map
  intro value rest taken
  obtain ⟨item, back, spelled, blank''⟩ := taken
  refine ⟨_, ?_, .mk named blank blank' spelled blank''⟩
  rw [← front, ← spread, ← split, ← back]
  simp

omit asked in
theorem meets_collected {policy : DuplicateKeys} {members : Parser Ref (List (String × Json))}
    {Word : List Char → List (String × Json) → Prop} {refused : Stop → Prop}
    (meets : (members.trace ask depths ahead).Meets gauge
      (fun members rest => ∃ word, word ++ rest = ahead ∧ Word word members) refused) :
    ((collected policy members).trace ask depths ahead).Meets gauge (fun object rest => ∃ word, word ++ rest = ahead ∧
      ∃ members, Word word members ∧ (policy = .reject → (members.map Prod.fst).Nodup) ∧
        Members.Gathers members object) refused := by
  cases policy with
  | lastWins =>
    unfold collected
    rw [trace_map, trace_reporting, Trace.map, Trace.bind_assoc]
    apply meets.bind
    intro found rest taken
    obtain ⟨word, front, spelled⟩ := taken
    refine ⟨?_, by simp [Trace.bind, Trace.after, Trace.took]⟩
    intro object last took
    simp only [Trace.bind, Trace.after, Trace.took, Answer.took.injEq] at took
    obtain ⟨rfl, rfl⟩ := took
    exact ⟨word, front, found, spelled, by simp, Members.gathers_iff.mpr (object_lastWins found)⟩
  | reject =>
    unfold collected
    rw [trace_tryMap]
    apply meets.bind
    intro found rest taken
    obtain ⟨word, front, spelled⟩ := taken
    cases together : distinctMembers found with
    | ok object =>
      obtain ⟨distinct, same⟩ := distinctMembers_eq_ok.mp together
      apply Trace.meets_took
      exact ⟨word, front, found, spelled, fun _ => distinct, Members.gathers_iff.mpr same⟩
    | error message => exact Trace.meets_stopped _

omit asked in
/-- A container is refused where its bracket would open past the limit, and else runs one level deeper. -/
theorem meets_nested {label : String} {opener : Char} {body : Depths → List Char → Trace Json}
    {taken : Json → List Char → Prop} (below : depths gauge ≤ options.maxDepth) (solid : Solid ahead)
    (place : At options.maxDepth whole (depths gauge) ahead)
    (known : label = "array" ∧ opener = '[' ∨ label = "object" ∧ opener = '\x7b')
    (inside : (∀ rest, ahead = opener :: rest → depths gauge < options.maxDepth) →
      (body (depths.deeper gauge) ahead).Meets gauge taken (Refused options.maxDepth whole)) :
    (Rule.traceNested gauge label opener options.maxDepth body depths ahead).Meets gauge taken
      (Refused options.maxDepth whole) := by
  unfold Rule.traceNested
  rw [solid.dropWhile]
  split
  · next refusing =>
    simp only [Bool.and_eq_true, decide_eq_true_eq, beq_iff_eq] at refusing
    obtain ⟨full, first⟩ := refusing
    obtain ⟨rest, same⟩ := List.head?_eq_some_iff.mp first
    have level : depths gauge = options.maxDepth := Nat.le_antisymm below full
    refine ⟨by simp, ?_⟩
    intro stop found
    obtain rfl : ⟨label, .tooDeep options.maxDepth, ahead⟩ = stop := by
      simpa [Note.firstRefusal, Note.refusal?] using found
    refine ⟨rfl, level ▸ place, rest, ?_⟩
    rcases known with ⟨rfl, rfl⟩ | ⟨rfl, rfl⟩
    · exact .inl ⟨rfl, same⟩
    · exact .inr ⟨rfl, same⟩
  · next entering =>
    apply inside
    intro rest same
    simp only [same, List.head?_cons, beq_self_eq_true, Bool.and_true, decide_eq_true_eq] at entering
    omega

omit asked in
/-- Where the inside of a container begins. -/
theorem At.inside {opener : Char} {rest : List Char} (place : At options.maxDepth whole (depths gauge) ahead)
    (opening : Brackets.Opens opener) (room : ∀ rest, ahead = opener :: rest → depths gauge < options.maxDepth)
    (past : Past opener ahead rest) :
    depths gauge < options.maxDepth ∧ depths.deeper gauge gauge = depths gauge + 1 ∧ Solid rest ∧
      At options.maxDepth whole (depths.deeper gauge gauge) rest := by
  obtain ⟨blanks, same, blank, solid⟩ := past
  have below := room _ same.symm
  have level : depths.deeper gauge gauge = depths gauge + 1 := if_pos rfl
  have entered : At options.maxDepth whole (depths gauge + 1) (blanks ++ rest) := by
    subst same
    exact place.opened opening below
  rw [level]
  exact ⟨below, rfl, solid, entered.pastBlanks rfl blank below⟩

theorem asked_array :
    Asked options gauge whole ((limited gauge options.maxDepth '[' (arrayRule value)).trace ask) := by
  intro depths ahead below solid place
  apply meets_nested below solid place (.inl ⟨rfl, rfl⟩)
  intro room
  have begin : ((token '[').trace ask (depths.deeper gauge) ahead).Meets gauge (fun _ rest => Past '[' ahead rest)
      (Refused options.maxDepth whole) := meets_token ask '[' ahead
  have taken := meets_between ask ']' ((value.keepLeft spaces).sepBy (token ',')) begin fun rest past => by
    obtain ⟨below, level, solid, place⟩ := place.inside (.inl rfl) room past
    exact meets_sepBy ask (fun word value => Brackets.calm_spaced fun word value => Brackets.calm_value) (by omega)
      (fun ahead solid place => meets_item asked (by omega) solid place) solid place
  apply Trace.Meets.relabel
  apply taken.map
  intro items rest held
  obtain ⟨first, word, last, whole, blank, listed, blank'⟩ := held
  have below := room _ whole.symm
  rw [show depths.deeper gauge gauge = depths gauge + 1 from if_pos rfl] at listed
  exact ⟨_, whole, .of_container below (.array blank listed) blank'⟩

theorem asked_object :
    Asked options gauge whole
      ((limited gauge options.maxDepth '\x7b' (objectRule value options.duplicateKeys)).trace ask) := by
  intro depths ahead below solid place
  apply meets_nested below solid place (.inr ⟨rfl, rfl⟩)
  intro room
  have begin : ((spaces.keepRight (token '\x7b')).trace ask (depths.deeper gauge) ahead).Meets gauge
      (fun _ rest => Past '\x7b' ahead rest) (Refused options.maxDepth whole) := by
    rw [trace_keepRight, trace_spaces, solid.dropWhile, Trace.bind_took]
    exact meets_token ask '\x7b' ahead
  have taken := meets_between ask '\x7d' (collected options.duplicateKeys
      ((((quotedString.keepLeft spaces).keepLeft (token ':')).andThen (value.keepLeft spaces)).sepBy (token ',')))
      begin fun rest past => by
    obtain ⟨below, level, solid, place⟩ := place.inside (.inr rfl) room past
    apply meets_collected
    exact meets_sepBy ask (fun word value => Brackets.calm_member fun word value => Brackets.calm_value) (by omega)
      (fun ahead solid place => meets_member asked (by omega) place) solid place
  apply Trace.Meets.relabel
  apply taken.map
  intro object rest held
  obtain ⟨first, word, last, whole, blank, ⟨members, listed, distinct, gathers⟩, blank'⟩ := held
  have below := room _ whole.symm
  rw [show depths.deeper gauge gauge = depths gauge + 1 from if_pos rfl] at listed
  exact ⟨_, whole, .of_container below (.object blank listed distinct gathers) blank'⟩

end Values

/-! ### Documents -/

section Documents

variable {Ref : Type → Type} {link : Ref Json} {gauge : Nat} {options : Options} {whole : List Char}

theorem asked_alternatives {ask : Ask Ref} (asked : Asked options gauge whole ((forward "value" link).trace ask)) :
    Asked options gauge whole ((Grammar.ofLink link gauge options).alternatives.trace ask) := by
  intro depths ahead below solid place
  have scalar : (scalarRule.trace ask depths ahead).Meets gauge (fun value rest => ∃ word, word ++ rest = ahead ∧
      Spaced (Value options.duplicateKeys (options.maxDepth - depths gauge)) word value)
      (Refused options.maxDepth whole) := by
    apply (reads_scalarRule ask depths ahead).meets.mono
    intro value rest taken
    obtain ⟨word, front, scalar⟩ := taken
    exact ⟨word, front, by simpa using Spaced.mk (.of_scalar scalar) (show Blanks [] by simp [Blanks])⟩
  exact (scalar.recover (asked_array asked depths ahead below solid place)).recover
    (asked_object asked depths ahead below solid place)

/-- The promise holds at every depth of references, by induction on how deep they go. -/
theorem asked_value {wiring : Wiring Ref}
    (wired : wiring.target link = some (Grammar.ofLink link gauge options).alternatives.rule) (budget : Nat) :
    Asked options gauge whole ((forward "value" link).trace (wiring.ask budget)) := by
  induction budget with
  | zero => exact fun depths ahead _ _ _ => ⟨by simp [Parser.trace, forward, Rule.trace, Wiring.ask],
      by simp [Parser.trace, forward, Rule.trace, Wiring.ask]⟩
  | succ budget ih =>
    intro depths ahead below solid place
    have further := asked_alternatives ih depths ahead below solid place
    show (wiring.ask (budget + 1) "value" link depths ahead).Meets _ _ _
    rw [Wiring.ask_succ, wired]
    exact further

theorem meets_document {wiring : Wiring Ref}
    (wired : wiring.target link = some (Grammar.ofLink link gauge options).alternatives.rule) (budget : Nat)
    {depths : Depths} (level : depths gauge = 0) :
    ((Grammar.ofLink link gauge options).document.trace (wiring.ask budget) depths whole).Meets gauge
      (fun value _ => Document options whole value) (Refused options.maxDepth whole) := by
  have place : At options.maxDepth whole 0 whole := ⟨[], rfl, rfl, rfl, Nat.zero_le _⟩
  show ((((spaces.keepRight (forward "value" link)).keepLeft spaces).keepLeft finish).trace _ depths whole).Meets _ _ _
  rw [trace_keepLeft, trace_keepLeft, trace_keepRight]
  simp only [Trace.map, Trace.bind_assoc, Trace.bind_took]
  apply (meets_spaces _ whole).bind
  intro before rest taken
  obtain ⟨front, blank, solid⟩ := taken
  have place := place.pastBlanks front blank (Nat.zero_le _)
  apply (asked_value wired budget depths rest (by omega) solid (level ▸ place)).bind
  intro value rest taken
  obtain ⟨word, middle, spaced⟩ := taken
  apply (meets_spaces _ rest).bind
  intro after rest taken
  obtain ⟨back, blank', unblank⟩ := taken
  show ((Rule.traceFinish "end of input" rest).bind fun _ rest => .took value rest).Meets _ _ _
  unfold Rule.traceFinish
  split
  · next done =>
    rw [Trace.bind_took]
    apply Trace.meets_took
    obtain rfl : rest = [] := List.isEmpty_iff.mp done
    obtain ⟨spelled, blanks⟩ := spaced
    rw [level, Nat.sub_zero] at spelled
    have document : Document options _ value := .mk blank spelled (blanks.append blank')
    rw [List.append_nil] at back
    rw [← front, ← middle, ← back]
    simpa using document
  · exact Trace.meets_stopped _

end Documents

end Caret.Json
