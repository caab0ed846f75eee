import Caret.Parser.Characters
import Caret.Proofs.Agreement
import Caret.Proofs.Combinators
import Caret.Proofs.Progress

/-!
What a run goes through. A moment is something about to be run: a token, a container, a reference. Each moment knows the
gauges as they stand then, and the containers it is inside of. If every container opens with its bracket before it comes
to anything else, the gauge counts the containers around a moment; it goes one past the limit only in a container that
will not open, and no reference is followed there.
-/

namespace Caret

/-- Something is about to be run. -/
structure Moment where
  /-- It is what a reference leads to. -/
  follows : Bool
  input : Input
  gauges : Gauges
  /-- Where the containers around it begin, the innermost first. -/
  around : List Input

abbrev Watch (Ref : Type → Type) := {α : Type} → Ref α → List Input → Input → Gauges → List Moment

namespace Rule

variable {Ref : Type → Type} {α : Type}

def roundMoments (step : Input → Gauges → Outcome α) (watch : Input → Gauges → List Moment) :
    Nat → Input → Gauges → List Moment
  | 0, _, _ => []
  | count + 1, input, gauges =>
    watch input gauges ++
      match (step input gauges).reply with
      | .accept _ rest =>
        if rest.position = input.position then [] else roundMoments step watch count rest (step input gauges).gauges
      | _ => []

def moments (follow : Follow Ref) (watch : Watch Ref) :
    {α : Type} → Rule Ref α → List Input → Input → Gauges → List Moment
  | _, .satisfy _ _, around, input, gauges => [⟨false, input, gauges, around⟩]
  | _, .finish _, around, input, gauges => [⟨false, input, gauges, around⟩]
  | _, .always _, around, input, gauges => [⟨false, input, gauges, around⟩]
  | _, .fail _ _, around, input, gauges => [⟨false, input, gauges, around⟩]
  | _, .report _, around, input, gauges => [⟨false, input, gauges, around⟩]
  | _, .bind rule next, around, input, gauges =>
    moments follow watch rule around input gauges ++
      match (rule.run follow input gauges).reply with
      | .accept value rest => moments follow watch (next value) around rest (rule.run follow input gauges).gauges
      | _ => []
  | _, .refine _ rule _, around, input, gauges => moments follow watch rule around input gauges
  | _, .orElse first second, around, input, gauges =>
    moments follow watch first around input gauges ++
      match (first.run follow input gauges).reply with
      | .reject _ => moments follow watch second around input (first.run follow input gauges).gauges
      | _ => []
  | _, .many1 _ rule, around, input, gauges =>
    roundMoments (rule.run follow) (moments follow watch rule around) (input.source.size + 1) input gauges
  | _, .relabel _ rule, around, input, gauges => moments follow watch rule around input gauges
  | _, .forward _ ref, around, input, gauges => ⟨true, input, gauges, around⟩ :: watch ref around input gauges
  | _, .nested gauge _ opener limit body, around, input, gauges =>
    ⟨false, input, gauges, around⟩ ::
      if limit ≤ (gauges.get gauge).depth && input.firstSolid? == some opener then []
      else moments follow watch body (input :: around) input (gauges.modify gauge Nesting.enter)

end Rule

def Wiring.watch {Ref : Type → Type} (wiring : Wiring Ref) : Nat → Watch Ref
  | 0, _, _, _, _, _ => []
  | budget + 1, _, ref, around, input, gauges =>
    match wiring.target ref with
    | none => []
    | some rule => rule.moments (wiring.follow budget) (wiring.watch budget) around input gauges

/-! ### What holds of all moments -/

section Each

variable {Ref : Type → Type} {α β : Type} {follow : Follow Ref} {watch : Watch Ref} {holds : Moment → Prop}
  {around : List Input} {input : Input} {gauges : Gauges}

theorem Rule.forall_mem_roundMoments {step : Input → Gauges → Outcome α} {watch : Input → Gauges → List Moment}
    {count : Nat} :
    (∀ moment ∈ roundMoments step watch (count + 1) input gauges, holds moment) ↔
      (∀ moment ∈ watch input gauges, holds moment) ∧
        ∀ value rest, (step input gauges).reply = .accept value rest → rest.position ≠ input.position →
          ∀ moment ∈ roundMoments step watch count rest (step input gauges).gauges, holds moment := by
  rw [roundMoments, List.forall_mem_append]
  refine and_congr_right fun _ => ?_
  cases (step input gauges).reply with
  | accept value rest => by_cases still : rest.position = input.position <;> simp [still]
  | reject | broken => simp

theorem Rule.forall_mem_moments_bind {rule : Rule Ref α} {next : α → Rule Ref β} :
    (∀ moment ∈ (rule.bind next).moments follow watch around input gauges, holds moment) ↔
      (∀ moment ∈ rule.moments follow watch around input gauges, holds moment) ∧
        ∀ value rest, (rule.run follow input gauges).reply = .accept value rest →
          ∀ moment ∈ (next value).moments follow watch around rest (rule.run follow input gauges).gauges,
            holds moment := by
  rw [moments, List.forall_mem_append]
  refine and_congr_right fun _ => ?_
  cases (rule.run follow input gauges).reply <;> simp

theorem Rule.forall_mem_moments_orElse {first second : Rule Ref α} :
    (∀ moment ∈ (first.orElse second).moments follow watch around input gauges, holds moment) ↔
      (∀ moment ∈ first.moments follow watch around input gauges, holds moment) ∧
        ∀ failure, (first.run follow input gauges).reply = .reject failure →
          ∀ moment ∈ second.moments follow watch around input (first.run follow input gauges).gauges,
            holds moment := by
  rw [moments, List.forall_mem_append]
  refine and_congr_right fun _ => ?_
  cases (first.run follow input gauges).reply <;> simp

end Each

/-! ### What decides a run -/

section Deciding

variable {Ref : Type → Type} {α : Type} {holds : Moment → Prop}

theorem Rule.repeatFrom_congr {label : String} {step other : Input → Gauges → Outcome α}
    {watch : Input → Gauges → List Moment}
    (same : ∀ input gauges, (∀ moment ∈ watch input gauges, holds moment) → other input gauges = step input gauges)
    (count : Nat) (taken : List α) (log : Log) (input : Input) (gauges : Gauges)
    (each : ∀ moment ∈ roundMoments step watch count input gauges, holds moment) :
    repeatFrom label other count taken log input gauges = repeatFrom label step count taken log input gauges := by
  induction count generalizing taken log input gauges with
  | zero => rfl
  | succ count ih =>
    obtain ⟨now, later⟩ := forall_mem_roundMoments.mp each
    rw [repeatFrom, repeatFrom, same input gauges now]
    split
    · next value rest accepted =>
      split
      · rfl
      · next moved => exact ih _ _ rest _ (later value rest accepted moved)
    · rfl
    · rfl

def Follow.SameWhere (holds : Moment → Prop) (follow other : Follow Ref) (watch : Watch Ref) : Prop :=
  ∀ {α : Type} (label : String) (ref : Ref α) (around : List Input) (input : Input) (gauges : Gauges),
    holds ⟨true, input, gauges, around⟩ → (∀ moment ∈ watch ref around input gauges, holds moment) →
      other label ref input gauges = follow label ref input gauges

/-- A run is the same for references that come to the same at its moments. -/
theorem Rule.run_eq_of_moments {follow other : Follow Ref} {watch : Watch Ref}
    (same : Follow.SameWhere holds follow other watch) (rule : Rule Ref α) (around : List Input) (input : Input)
    (gauges : Gauges) (each : ∀ moment ∈ rule.moments follow watch around input gauges, holds moment) :
    rule.run other input gauges = rule.run follow input gauges := by
  induction rule generalizing around input gauges with
  | satisfy | finish | always | fail | report => rfl
  | bind rule next ihRule ihNext =>
    obtain ⟨now, later⟩ := forall_mem_moments_bind.mp each
    rw [run, run, ihRule around input gauges now, Outcome.bind, Outcome.bind]
    split
    · next value rest accepted => rw [ihNext value around rest _ (later value rest accepted)]
    · rfl
    · rfl
  | refine label rule convert ih => rw [run, run, ih around input gauges each]
  | orElse first second ihFirst ihSecond =>
    obtain ⟨now, later⟩ := forall_mem_moments_orElse.mp each
    rw [run, run, ihFirst around input gauges now, Outcome.recover, Outcome.recover]
    split
    · next failure rejected => rw [ihSecond around input _ (later failure rejected)]
    · rfl
  | many1 label rule ih =>
    exact repeatFrom_congr (fun input gauges => ih around input gauges) _ [] [] _ _ each
  | relabel label rule ih => rw [run, run, ih around input gauges each]
  | forward label ref =>
    rw [moments, List.forall_mem_cons] at each
    exact same label ref around input gauges each.1 each.2
  | nested gauge label opener limit body ih =>
    rw [moments, List.forall_mem_cons] at each
    rw [run, run, runNested, runNested]
    split
    · rfl
    · next entered =>
      have later := each.2
      rw [if_neg entered] at later
      rw [ih (input :: around) input _ later]

/-- One way to follow references does at a place what another one does: it ends with the budget, and else it runs what
the reference leads to, where it may go its own way again. -/
structure Wiring.Heeds (wiring : Wiring Ref) (others : Nat → Follow Ref) (input : Input) (gauges : Gauges) : Prop where
  spent : ∀ {α : Type} (label : String) (ref : Ref α),
    others 0 label ref input gauges = ⟨.broken (.endless label), gauges, []⟩
  unwired : ∀ {α : Type} (budget : Nat) (label : String) (ref : Ref α), wiring.target ref = none →
    others (budget + 1) label ref input gauges = ⟨.broken (.unwired label), gauges, []⟩
  wired : ∀ {α : Type} (budget : Nat) (label : String) (ref : Ref α) (rule : Rule Ref α),
    wiring.target ref = some rule → others (budget + 1) label ref input gauges = rule.run (others budget) input gauges

theorem Wiring.sameWhere_heeds (wiring : Wiring Ref) (others : Nat → Follow Ref) (budget : Nat) :
    Follow.SameWhere (fun moment => moment.follows = true → wiring.Heeds others moment.input moment.gauges)
      (wiring.follow budget) (others budget) (wiring.watch budget) := by
  induction budget with
  | zero => exact fun label ref around input gauges here inside => (here rfl).spent label ref
  | succ budget ih =>
    intro α label ref around input gauges here inside
    change others (budget + 1) label ref input gauges = wiring.follow (budget + 1) label ref input gauges
    change ∀ moment ∈ wiring.watch (budget + 1) ref around input gauges, _ at inside
    rw [follow_succ]
    rw [watch] at inside
    cases target : wiring.target ref with
    | none => exact (here rfl).unwired budget label ref target
    | some rule =>
      rw [target] at inside
      rw [(here rfl).wired budget label ref rule target]
      exact Rule.run_eq_of_moments ih rule around input gauges inside

/-- Whoever heeds a wiring at the moments of a run comes to the same, whatever is followed at other places. -/
theorem Wiring.run_eq_of_heeds {wiring : Wiring Ref} {others : Nat → Follow Ref} (budget : Nat) (rule : Rule Ref α)
    (around : List Input) (input : Input) (gauges : Gauges)
    (heeds : ∀ moment ∈ rule.moments (wiring.follow budget) (wiring.watch budget) around input gauges,
      moment.follows = true → wiring.Heeds others moment.input moment.gauges) :
    rule.run (others budget) input gauges = rule.run (wiring.follow budget) input gauges :=
  Rule.run_eq_of_moments (wiring.sameWhere_heeds others budget) rule around input gauges heeds

end Deciding

/-! ### Containers that open before anything else -/

namespace Rule

variable {Ref : Type → Type} {α : Type}

def Skips : {α : Type} → Rule Ref α → Prop
  | _, .satisfy accepts _ => ∀ char, accepts char = true → Text.isBlank char = true
  | _, .always _ => True
  | _, .orElse first second => first.Skips ∧ second.Skips
  | _, .many1 _ rule => rule.Skips
  | _, _ => False

/-- Skips blanks at most, then takes the opener or fails. -/
def Opens (opener : Char) : {α : Type} → Rule Ref α → Prop
  | _, .satisfy accepts _ => ∀ char, accepts char = true → char = opener
  | _, .bind rule next => rule.Opens opener ∨ rule.Skips ∧ ∀ value, (next value).Opens opener
  | _, .refine _ rule _ => rule.Opens opener
  | _, .relabel _ rule => rule.Opens opener
  | _, _ => False

def Sheltered (gauge limit : Nat) : {α : Type} → Rule Ref α → Prop
  | _, .satisfy _ _ => True
  | _, .finish _ => True
  | _, .always _ => True
  | _, .fail _ _ => True
  | _, .report _ => True
  | _, .bind rule next => rule.Sheltered gauge limit ∧ ∀ value, (next value).Sheltered gauge limit
  | _, .refine _ rule _ => rule.Sheltered gauge limit
  | _, .orElse first second => first.Sheltered gauge limit ∧ second.Sheltered gauge limit
  | _, .many1 _ rule => rule.Sheltered gauge limit
  | _, .relabel _ rule => rule.Sheltered gauge limit
  | _, .forward _ _ => True
  | _, .nested own _ opener bound body =>
    own = gauge ∧ bound = limit ∧ Text.isBlank opener = false ∧ body.Opens opener ∧ body.Sheltered gauge limit

end Rule

/-! ### What is taken -/

section Taking

variable {Ref : Type → Type} {α β : Type}

theorem Agrees.took_of_accept {input rest : Input} {gauges : Gauges} {outcome : Outcome α} {trace : Trace α} {value : α}
    (agrees : Agrees input gauges outcome trace) (accepted : outcome.reply = .accept value rest) :
    input.Leads rest ∧ outcome.gauges.depths = gauges.depths ∧ trace.answer = .took value rest.ahead := by
  obtain ⟨leads, taken⟩ := Answer.Places.of_accept (accepted ▸ agrees.reply)
  exact ⟨leads, agrees.gauges.depths, taken⟩

/-- A value leaves the depths as they were, and what is ahead of it is what the trace says. -/
theorem Wiring.took_of_accept {wiring : Wiring Ref} {budget : Nat} {rule : Rule Ref α} {input rest : Input}
    {gauges : Gauges} {value : α}
    (accepted : (rule.run (wiring.follow budget) input gauges).reply = .accept value rest) :
    input.Leads rest ∧ (rule.run (wiring.follow budget) input gauges).gauges.depths = gauges.depths ∧
      (rule.trace (wiring.ask budget) gauges.depths input.ahead).answer = .took value rest.ahead :=
  (rule.run_agrees (wiring.follow_agrees budget) input gauges).took_of_accept accepted

/-- What every round leaves as it was, a repetition leaves as it was. -/
theorem Trace.eq_of_many1 {view : List Char → β} {label : String} {step : List Char → Trace α}
    (each : ∀ ahead value rest, (step ahead).answer = .took value rest → view rest = view ahead)
    {ahead rest : List Char} {values : List α} (taken : (many1 label step ahead).answer = .took values rest) :
    view rest = view ahead := by
  induction size : ahead.length using Nat.strongRecOn generalizing ahead values with
  | ind size ih =>
    subst size
    rw [many1_eq] at taken
    obtain ⟨value, middle, front, back⟩ := took_of_bind taken
    have first := each ahead value middle front
    split at back
    · next shorter =>
      obtain ⟨more, last, further, same⟩ := took_of_bind back
      simp only [took, Answer.took.injEq] at same
      obtain ⟨-, rfl⟩ := same
      rcases took_of_recover further with again | ⟨-, still⟩
      · exact (ih _ shorter again rfl).trans first
      · cases still
        exact first
    · cases back
      exact first

namespace Rule

variable {ask : Ask Ref} {depths : Depths} {ahead rest : List Char} {value : α}

theorem Skips.dropWhile_eq {rule : Rule Ref α} (skips : rule.Skips)
    (taken : (rule.trace ask depths ahead).answer = .took value rest) :
    rest.dropWhile Text.isBlank = ahead.dropWhile Text.isBlank := by
  induction rule generalizing ahead rest with
  | satisfy accepts label =>
    obtain ⟨accepted, rfl⟩ := took_of_traceSatisfy taken
    rw [List.dropWhile_cons_of_pos (skips value accepted)]
  | always found =>
    cases taken
    rfl
  | orElse first second ihFirst ihSecond =>
    rcases Trace.took_of_recover taken with taken | ⟨-, taken⟩
    · exact ihFirst skips.1 taken
    · exact ihSecond skips.2 taken
  | many1 label rule ih => exact Trace.eq_of_many1 (fun ahead value rest => ih skips) taken
  | finish | fail | report | bind | refine | relabel | forward | nested => exact skips.elim

/-- What opens has found its opener first, and is past it when it is done. -/
theorem Opens.found {rule : Rule Ref α} {opener : Char} (opens : rule.Opens opener)
    (solid : Text.isBlank opener = false) (within : Ask.Within ask)
    (taken : (rule.trace ask depths ahead).answer = .took value rest) :
    (ahead.dropWhile Text.isBlank).head? = some opener ∧ rest.length < (ahead.dropWhile Text.isBlank).length := by
  induction rule generalizing ahead rest with
  | satisfy accepts label =>
    obtain ⟨accepted, rfl⟩ := took_of_traceSatisfy taken
    obtain rfl := opens value accepted
    rw [List.dropWhile_cons_of_neg (by simp [solid])]
    exact ⟨rfl, Nat.lt_succ_self rest.length⟩
  | bind rule next ihRule ihNext =>
    obtain ⟨first, middle, front, back⟩ := Trace.took_of_bind taken
    rcases opens with opens | ⟨skips, opens⟩
    · have shorter := ((next first).within_trace within depths middle value rest back).length_le
      obtain ⟨found, past⟩ := ihRule opens front
      exact ⟨found, Nat.lt_of_le_of_lt shorter past⟩
    · have same := skips.dropWhile_eq front
      exact same ▸ ihNext first (opens first) back
  | refine label rule convert ih =>
    obtain ⟨first, middle, front, back⟩ := Trace.took_of_bind taken
    have shorter := (within_traceRefined label ahead (convert first) middle value rest back).length_le
    obtain ⟨found, past⟩ := ih opens front
    exact ⟨found, Nat.lt_of_le_of_lt shorter past⟩
  | relabel label rule ih => exact ih opens (Trace.took_of_relabel taken)
  | finish | always | fail | report | orElse | many1 | forward | nested => exact opens.elim

end Rule

end Taking

/-! ### Where a run may be -/

/-- The place is past the first token of a container that is not blank. -/
def Input.entered (place container : Input) : Bool :=
  place.ahead.length < (container.ahead.dropWhile Text.isBlank).length

def Input.After (place start : Input) : Prop :=
  start.Leads place ∧ place.ahead.length < start.ahead.length

theorem Input.After.onward {place start rest : Input} (after : place.After start) (leads : place.Leads rest) :
    rest.After start :=
  ⟨after.1.trans leads, Nat.lt_of_le_of_lt leads.length_le after.2⟩

structure Moment.Fits (gauge limit total : Nat) (moment : Moment) : Prop where
  counted : (moment.gauges.get gauge).depth = moment.around.length
  level : moment.around.length ≤ limit + 1
  taken : moment.around.length + moment.input.ahead.length ≤ total + 1
  /-- A reference is followed below the limit, and past the place where the container around it begins. -/
  followed : moment.follows = true → moment.around.length ≤ limit ∧
    ∀ container ∈ moment.around.head?, moment.input.After container
  entered : moment.around.countP moment.input.entered ≤ limit

section Places

variable {gauge limit total : Nat} {around outer : List Input} {input rest container : Input} {gauges middle : Gauges}
  {opener : Char}

structure Inside (gauge limit total : Nat) (around : List Input) (input : Input) (gauges : Gauges) : Prop where
  counted : gauges.depths gauge = around.length
  room : around.length ≤ limit
  later : ∀ container ∈ around.head?, input.After container
  taken : around.length + input.ahead.length ≤ total

/-- Before the opener of the innermost container, with nothing but blanks passed; at the limit there is no opener. -/
structure Before (gauge limit total : Nat) (opener : Char) (container : Input) (outer : List Input) (input : Input)
    (gauges : Gauges) : Prop where
  counted : gauges.depths gauge = outer.length + 1
  room : outer.length ≤ limit
  free : (input.ahead.dropWhile Text.isBlank).head? = some opener → outer.length < limit
  blank : input.ahead.dropWhile Text.isBlank = container.ahead.dropWhile Text.isBlank
  leads : container.Leads input
  taken : outer.length + input.ahead.length ≤ total

theorem Inside.fits (inside : Inside gauge limit total around input gauges) (follows : Bool) :
    Moment.Fits gauge limit total ⟨follows, input, gauges, around⟩ where
  counted := inside.counted
  level := Nat.le_succ_of_le inside.room
  taken := Nat.le_succ_of_le inside.taken
  followed _ := ⟨inside.room, inside.later⟩
  entered := Nat.le_trans List.countP_le_length inside.room

theorem Inside.onward (inside : Inside gauge limit total around input gauges) (leads : input.Leads rest)
    (level : middle.depths = gauges.depths) : Inside gauge limit total around rest middle where
  counted := by rw [level, inside.counted]
  room := inside.room
  later container head := (inside.later container head).onward leads
  taken := Nat.le_trans (Nat.add_le_add_left leads.length_le _) inside.taken

theorem Inside.enter (inside : Inside gauge limit total around input gauges)
    (free : (input.ahead.dropWhile Text.isBlank).head? = some opener → around.length < limit) :
    Before gauge limit total opener input around input (gauges.modify gauge Nesting.enter) where
  counted := by rw [Gauges.depths_enter, Depths.deeper, if_pos rfl, inside.counted]
  room := inside.room
  free := free
  blank := rfl
  leads := .here input
  taken := inside.taken

theorem Before.fits (before : Before gauge limit total opener container outer input gauges) :
    Moment.Fits gauge limit total ⟨false, input, gauges, container :: outer⟩ where
  counted := before.counted
  level := Nat.succ_le_succ before.room
  taken := by
    have taken := before.taken
    simp only [List.length_cons]
    omega
  followed follows := nomatch follows
  entered := by
    have outside : input.entered container = false := by
      have long := (List.dropWhile_suffix Text.isBlank (l := input.ahead)).length_le
      rw [before.blank] at long
      simpa [Input.entered] using long
    rw [List.countP_cons_of_neg (by simp [outside])]
    exact Nat.le_trans List.countP_le_length before.room

theorem Before.skip (before : Before gauge limit total opener container outer input gauges) (leads : input.Leads rest)
    (level : middle.depths = gauges.depths)
    (blank : rest.ahead.dropWhile Text.isBlank = input.ahead.dropWhile Text.isBlank) :
    Before gauge limit total opener container outer rest middle where
  counted := by rw [level, before.counted]
  room := before.room
  free := blank ▸ before.free
  blank := blank.trans before.blank
  leads := before.leads.trans leads
  taken := Nat.le_trans (Nat.add_le_add_left leads.length_le _) before.taken

theorem Before.opened (before : Before gauge limit total opener container outer input gauges)
    (leads : input.Leads rest) (level : middle.depths = gauges.depths)
    (found : (input.ahead.dropWhile Text.isBlank).head? = some opener)
    (past : rest.ahead.length < (input.ahead.dropWhile Text.isBlank).length) :
    Inside gauge limit total (container :: outer) rest middle where
  counted := by rw [level, before.counted, List.length_cons]
  room := before.free found
  later := by
    intro container head
    cases head
    have long := (List.dropWhile_suffix Text.isBlank (l := container.ahead)).length_le
    have short := before.blank ▸ past
    exact ⟨before.leads.trans leads, Nat.lt_of_lt_of_le short long⟩
  taken := by
    have long := (List.dropWhile_suffix Text.isBlank (l := input.ahead)).length_le
    have taken := before.taken
    simp only [List.length_cons]
    omega

end Places

/-! ### Runs -/

section Runs

variable {Ref : Type → Type} {α : Type} {gauge limit total : Nat}

def Watch.Fits (gauge limit total : Nat) (watch : Watch Ref) : Prop :=
  ∀ {α : Type} (ref : Ref α) (around : List Input) (input : Input) (gauges : Gauges),
    Inside gauge limit total around input gauges →
      ∀ moment ∈ watch ref around input gauges, moment.Fits gauge limit total

/-- A repetition fits, if a round does from every state that rounds lead to. -/
theorem Rule.fits_roundMoments {step : Input → Gauges → Outcome α} {watch : Input → Gauges → List Moment}
    {state : Input → Gauges → Prop}
    (round : ∀ input gauges, state input gauges → ∀ moment ∈ watch input gauges, moment.Fits gauge limit total)
    (onward : ∀ input gauges value rest, state input gauges → (step input gauges).reply = .accept value rest →
      state rest (step input gauges).gauges)
    (count : Nat) (input : Input) (gauges : Gauges) (holds : state input gauges) :
    ∀ moment ∈ roundMoments step watch count input gauges, moment.Fits gauge limit total := by
  induction count generalizing input gauges with
  | zero => simp [roundMoments]
  | succ count ih =>
    refine forall_mem_roundMoments.mpr ⟨round input gauges holds, fun value rest accepted _ => ?_⟩
    exact ih rest _ (onward input gauges value rest holds accepted)

namespace Rule

variable {wiring : Wiring Ref} {budget : Nat} {watch : Watch Ref}

/-- Blanks before the opener fit. -/
theorem Skips.fits_moments {rule : Rule Ref α} (skips : rule.Skips) {opener : Char} {container : Input}
    {outer : List Input} {input : Input} {gauges : Gauges}
    (before : Before gauge limit total opener container outer input gauges) :
    ∀ moment ∈ rule.moments (wiring.follow budget) watch (container :: outer) input gauges,
      moment.Fits gauge limit total := by
  induction rule generalizing input gauges with
  | satisfy accepts label => exact List.forall_mem_singleton.mpr before.fits
  | always value => exact List.forall_mem_singleton.mpr before.fits
  | orElse first second ihFirst ihSecond =>
    refine forall_mem_moments_orElse.mpr ⟨ihFirst skips.1 before, fun failure rejected => ?_⟩
    exact ihSecond skips.2 (before.skip (.here input) (first.depths_run wiring budget input gauges) rfl)
  | many1 label rule ih =>
    rw [moments]
    have one : rule.Skips := skips
    refine fits_roundMoments (fun input gauges before => ih one before) ?_ _ input gauges before
    intro input gauges value rest before accepted
    obtain ⟨leads, level, taken⟩ := Wiring.took_of_accept accepted
    exact before.skip leads level (one.dropWhile_eq taken)
  | finish | fail | report | bind | refine | relabel | forward | nested => exact skips.elim

/-- All moments of a run fit: one that starts inside, and one that is before the opener and opens. -/
theorem Sheltered.fits_moments (watched : Watch.Fits gauge limit total @watch) {rule : Rule Ref α}
    (sheltered : rule.Sheltered gauge limit) :
    (∀ around input gauges, Inside gauge limit total around input gauges →
      ∀ moment ∈ rule.moments (wiring.follow budget) watch around input gauges, moment.Fits gauge limit total) ∧
    ∀ opener container outer input gauges, rule.Opens opener → Text.isBlank opener = false →
      Before gauge limit total opener container outer input gauges →
      ∀ moment ∈ rule.moments (wiring.follow budget) watch (container :: outer) input gauges,
        moment.Fits gauge limit total := by
  induction rule with
  | satisfy accepts label =>
    exact ⟨fun around input gauges inside => List.forall_mem_singleton.mpr (inside.fits false),
      fun opener container outer input gauges opens solid before => List.forall_mem_singleton.mpr before.fits⟩
  | finish | always | fail | report =>
    exact ⟨fun around input gauges inside => List.forall_mem_singleton.mpr (inside.fits false),
      fun opener container outer input gauges opens => opens.elim⟩
  | bind rule next ihRule ihNext =>
    obtain ⟨ruleInside, ruleBefore⟩ := ihRule sheltered.1
    have nextInside := fun value => (ihNext value (sheltered.2 value)).1
    have nextBefore := fun value => (ihNext value (sheltered.2 value)).2
    constructor
    · intro around input gauges inside
      refine forall_mem_moments_bind.mpr ⟨ruleInside around input gauges inside, fun value rest accepted => ?_⟩
      obtain ⟨leads, level, -⟩ := Wiring.took_of_accept accepted
      exact nextInside value around rest _ (inside.onward leads level)
    · intro opener container outer input gauges opens solid before
      rcases opens with opens | ⟨skips, opens⟩
      · -- The rule takes the opener, so what comes next is inside.
        have now := ruleBefore opener container outer input gauges opens solid before
        refine forall_mem_moments_bind.mpr ⟨now, fun value rest accepted => ?_⟩
        obtain ⟨leads, level, taken⟩ := Wiring.took_of_accept accepted
        obtain ⟨found, past⟩ := opens.found solid (wiring.within_ask budget) taken
        exact nextInside value (container :: outer) rest _ (before.opened leads level found past)
      · refine forall_mem_moments_bind.mpr ⟨skips.fits_moments before, fun value rest accepted => ?_⟩
        obtain ⟨leads, level, taken⟩ := Wiring.took_of_accept accepted
        exact nextBefore value opener container outer rest _ (opens value) solid
          (before.skip leads level (skips.dropWhile_eq taken))
  | refine label rule convert ih => exact ih sheltered
  | orElse first second ihFirst ihSecond =>
    refine ⟨fun around input gauges inside => ?_, fun opener container outer input gauges opens => opens.elim⟩
    have now := (ihFirst sheltered.1).1 around input gauges inside
    refine forall_mem_moments_orElse.mpr ⟨now, fun failure rejected => ?_⟩
    have level := first.depths_run wiring budget input gauges
    exact (ihSecond sheltered.2).1 around input _ (inside.onward (.here input) level)
  | many1 label rule ih =>
    refine ⟨fun around input gauges inside => ?_, fun opener container outer input gauges opens => opens.elim⟩
    rw [moments]
    refine fits_roundMoments ((ih sheltered).1 around) ?_ _ input gauges inside
    intro input gauges value rest inside accepted
    obtain ⟨leads, level, -⟩ := Wiring.took_of_accept accepted
    exact inside.onward leads level
  | relabel label rule ih => exact ih sheltered
  | forward label ref =>
    refine ⟨fun around input gauges inside => ?_, fun opener container outer input gauges opens => opens.elim⟩
    rw [moments, List.forall_mem_cons]
    exact ⟨inside.fits true, watched ref around input gauges inside⟩
  | nested own label opener bound body ih =>
    refine ⟨fun around input gauges inside => ?_, fun opener container outer input gauges opens => opens.elim⟩
    obtain ⟨rfl, rfl, solid, opens, sheltered⟩ := sheltered
    rw [moments, List.forall_mem_cons]
    refine ⟨inside.fits false, ?_⟩
    split
    · exact List.forall_mem_nil _
    · next entered =>
      refine (ih sheltered).2 opener input around input _ opens solid (inside.enter fun found => ?_)
      rw [Input.firstSolid?_eq, found] at entered
      have low : gauges.depths own < bound := by simpa [Gauges.depths] using entered
      exact inside.counted ▸ low

end Rule

/-- Where references lead to sheltered rules, all that following them goes through fits. -/
theorem Wiring.fits_watch {wiring : Wiring Ref}
    (sheltered : ∀ {α : Type} (ref : Ref α) (rule : Rule Ref α), wiring.target ref = some rule →
      rule.Sheltered gauge limit) (budget : Nat) :
    Watch.Fits gauge limit total (@Wiring.watch Ref wiring budget) := by
  induction budget with
  | zero => exact fun ref around input gauges inside => List.forall_mem_nil _
  | succ budget ih =>
    intro α ref around input gauges inside
    rw [watch]
    cases wired : wiring.target ref with
    | none => exact List.forall_mem_nil _
    | some rule => exact ((sheltered ref rule wired).fits_moments ih).1 around input gauges inside

end Runs

end Caret
