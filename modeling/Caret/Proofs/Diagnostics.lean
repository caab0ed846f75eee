import Caret.Proofs.Forward
import Caret.Proofs.Likeness

/-!
What failures tell. However often a failure is passed on, dropped or renamed, its snapshot is that of a cursor which the
run has come to. A rule is plain if it refuses nothing in words of its own and keeps to no limit; its failures are for
the token under that cursor, or for the end of the input.
-/

namespace Caret

/-- Texts that begin differently are different, whatever comes then. -/
theorem Text.append_ne_append {front other : String} (apart : ¬front.toList <+: other.toList)
    (apart' : ¬other.toList <+: front.toList) (rest more : String) : front ++ rest ≠ other ++ more := by
  intro same
  have chars : front.toList ++ rest.toList = other.toList ++ more.toList := by
    rw [← String.toList_append, ← String.toList_append, same]
  have within : front.toList <+: other.toList ++ more.toList := chars ▸ List.prefix_append _ _
  exact (List.prefix_or_prefix_of_prefix within (List.prefix_append _ _)).elim apart apart'

/-! ### Stops for what comes first -/

def Stop.Plain (stop : Stop) : Prop :=
  stop = .here stop.label stop.ahead

theorem Stop.plain_here (label : String) (ahead : List Char) : (Stop.here label ahead).Plain := by
  cases ahead <;> rfl

theorem Stop.Plain.relabel {stop : Stop} (plain : stop.Plain) (label : String) : { stop with label }.Plain := by
  obtain ⟨name, reason, ahead⟩ := stop
  cases ahead <;>
  · cases plain
    rfl

namespace Trace

variable {α β : Type}

def Plain (trace : Trace α) : Prop :=
  ∀ stop, trace.answer = .stopped stop → stop.Plain

theorem plain_took (value : α) (ahead : List Char) : (took value ahead).Plain :=
  nofun

theorem plain_here (label : String) (ahead : List Char) : (stopped (.here label ahead) : Trace α).Plain := by
  intro stop gaveUp
  cases gaveUp
  exact Stop.plain_here label ahead

theorem Plain.bind {trace : Trace α} {next : α → List Char → Trace β} (plain : trace.Plain)
    (onward : ∀ value rest, (next value rest).Plain) : (trace.bind next).Plain := by
  intro stop stopped
  rcases stopped_of_bind stopped with stopped | ⟨value, rest, -, stopped⟩
  · exact plain stop stopped
  · exact onward value rest stop stopped

theorem Plain.recover (trace : Trace α) {other : Trace α} (plain : other.Plain) : (trace.recover other).Plain :=
  fun stop stopped => plain stop (stopped_of_recover stopped).2

theorem Plain.relabel {trace : Trace α} (plain : trace.Plain) (label : String) : (trace.relabel label).Plain := by
  intro stop stopped
  obtain ⟨inner, gaveUp, rfl⟩ := stopped_of_relabel stopped
  exact (plain inner gaveUp).relabel label

/-- Only the first round of a repetition gives up. -/
theorem Plain.many1 {step : List Char → Trace α} {ahead : List Char} (plain : (step ahead).Plain) (label : String) :
    (many1 label step ahead).Plain := by
  rw [many1_eq]
  refine plain.bind fun value rest => ?_
  split
  · intro stop stopped
    exact absurd (stopped_of_map stopped) (many_answer_ne_stopped label step rest stop)
  · exact nofun

end Trace

/-! ### Plain rules -/

section Rules

variable {Ref : Type → Type} {α : Type} (known : ∀ α : Type, Ref α → Prop)

/-- Nothing is refused and there is no limit, nor in what the known references lead to, and no other is followed. -/
def Rule.Plain : {α : Type} → Rule Ref α → Prop
  | _, .satisfy _ _ => True
  | _, .finish _ => True
  | _, .always _ => True
  | _, .fail _ _ => False
  | _, .report _ => True
  | _, .bind rule next => rule.Plain ∧ ∀ value, (next value).Plain
  | _, .refine _ rule convert => rule.Plain ∧ ∀ value message, convert value ≠ .error message
  | _, .orElse first second => first.Plain ∧ second.Plain
  | _, .many1 _ rule => rule.Plain
  | _, .relabel _ rule => rule.Plain
  | α, .forward _ ref => known α ref
  | _, .nested _ _ _ _ _ => False

def Wiring.Plain (wiring : Wiring Ref) : Prop :=
  ∀ (α : Type) (ref : Ref α) (rule : Rule Ref α), known α ref → wiring.target ref = some rule → rule.Plain known

variable {known}

theorem Rule.plain_trace {ask : Ask Ref}
    (asked : ∀ {α : Type} (label : String) (ref : Ref α) (depths : Depths) (ahead : List Char), known α ref →
      (ask label ref depths ahead).Plain)
    (rule : Rule Ref α) (plain : rule.Plain known) (depths : Depths) (ahead : List Char) :
    (rule.trace ask depths ahead).Plain := by
  induction rule generalizing depths ahead with
  | satisfy accepts label =>
    simp only [trace]
    unfold traceSatisfy
    split
    · exact Trace.plain_here label []
    · split
      · exact Trace.plain_took _ _
      · exact Trace.plain_here label _
  | finish label =>
    simp only [trace, traceFinish]
    split
    · exact Trace.plain_took () ahead
    · exact Trace.plain_here label ahead
  | always value => exact Trace.plain_took value ahead
  | report log =>
    intro stop stopped
    cases stopped
  | bind rule next ihRule ihNext =>
    exact (ihRule plain.1 depths ahead).bind fun value rest => ihNext value (plain.2 value) depths rest
  | refine label rule convert ih =>
    refine (ih plain.1 depths ahead).bind fun value rest => ?_
    cases converted : convert value with
    | ok value => exact Trace.plain_took value rest
    | error message => exact absurd converted (plain.2 value message)
  | orElse first second ihFirst ihSecond => exact .recover _ (ihSecond plain.2 depths ahead)
  | many1 label rule ih => exact (ih plain depths ahead).many1 label
  | relabel label rule ih => exact (ih plain depths ahead).relabel label
  | forward label ref => exact asked label ref depths ahead plain
  | fail | nested => exact plain.elim

theorem Wiring.plain_ask {wiring : Wiring Ref} (plain : wiring.Plain known) (budget : Nat) (label : String)
    (ref : Ref α) (depths : Depths) (ahead : List Char) (among : known α ref) :
    (wiring.ask budget label ref depths ahead).Plain := by
  induction budget generalizing α label ref depths ahead with
  | zero => exact nofun
  | succ budget ih =>
    rw [ask_succ]
    cases wired : wiring.target ref with
    | none => exact nofun
    | some rule => exact rule.plain_trace ih (plain α ref rule among wired) depths ahead

end Rules

/-! ### Replies by their place -/

namespace Answer.Places

variable {α : Type} {input place : Input} {reply : Reply α}

theorem eq_accept {value : α} (places : (Answer.took value place.ahead).Places input reply)
    (leads : input.Leads place) : reply = .accept value place :=
  places.unique (.took leads rfl)

theorem eq_reject {label : String} (places : (Answer.stopped (.here label place.ahead) : Answer α).Places input reply)
    (leads : input.Leads place) : reply = .reject (.here label place) :=
  places.unique (.stopped ((Failure.here_places label place).from leads))

end Answer.Places

/-! ### What is shown and what is found -/

namespace Failure

/-- The failure shows where a cursor stands: its line and column, and the text of its line, or the words that stand for
it past the last line. -/
structure Shows (failure : Failure) (place : Input) : Prop where
  snapshot : failure.place = place.snapshot
  position : failure.position = place.position
  inside : place.atEnd = false → ∃ line, place.source.lines[place.position.line]? = some line ∧
    failure.place.line = line ∧ failure.position.column ≤ line.size
  outside : place.atEnd = true → failure.place.line.text = "end of file" ∧ failure.position.column = 0

/-- The message is for the token under a cursor, which is a line feed where the line ends, or for the lack of one. -/
inductive Finds (failure : Failure) (place : Input) : Prop
  | nothing (ended : place.atEnd = true) (message : failure.message = "No more input")
  | token {token : Char} {rest : Input} (taken : place.next? = some (token, rest))
    (message : failure.message = s!"Unexpected '{token}'")
    (lineFeed : failure.position.column = failure.place.line.size → token = '\n')

variable {failure : Failure} {place : Input}

theorem shows_of_snapshot (proper : place.Proper) (shot : failure.place = place.snapshot) : failure.Shows place := by
  have position : failure.position = place.position := by rw [Failure.position, shot, Input.snapshot]
  refine ⟨shot, position, ?_, ?_⟩
  · intro before
    cases found : place.source.lines[place.position.line]? with
    | none => exact absurd (Input.atEnd_eq_true.mpr found) (by simp [before])
    | some line =>
      have text : failure.place.line = line := by
        rw [shot, Input.snapshot, Input.line, found, Option.getD_some]
      exact ⟨line, rfl, text, by rw [position]; exact proper.column line found⟩
  · intro past
    have none := Input.atEnd_eq_true.mp past
    constructor
    · rw [shot, Input.snapshot, Input.line, none, Option.getD_none]
      rfl
    · rw [position, proper.finished past]

/-- What a plain stop is about is what the cursor there finds. -/
theorem finds_of_plain {input : Input} {stop : Stop} (plain : stop.Plain) (places : stop.Places input failure)
    (ahead : place.ahead = stop.ahead) (shot : failure.place = place.snapshot) : failure.Finds place := by
  have message : failure.message = (Stop.here stop.label place.ahead).reason.message := by
    rw [ahead, ← plain, Failure.message, places.reason]
  cases taken : place.next? with
  | none =>
    rw [Input.next?_eq_none.mp taken] at message
    exact .nothing (Input.atEnd_of_next? taken) message
  | some next =>
    obtain ⟨token, rest⟩ := next
    rw [Input.ahead_of_next? taken] at message
    refine .token taken message fun last => Input.eq_lineFeed_of_next? taken ?_
    rwa [Failure.position, shot] at last

structure Reports (label : String) (failure : Failure) (place : Input) : Prop where
  label : failure.label = label
  snapshot : failure.place = place.snapshot
  finds : failure.Finds place

theorem reports_here (label : String) (place : Input) : (here label place).Reports label place := by
  have name : (here label place).label = label := by
    unfold here
    split <;> rfl
  have shot : (here label place).place = place.snapshot := by
    unfold here
    split <;> rfl
  have ahead : place.ahead = (Stop.here label place.ahead).ahead := by cases place.ahead <;> rfl
  exact ⟨name, shot, finds_of_plain (Stop.plain_here label place.ahead) (here_places label place) ahead shot⟩

end Failure

namespace Stop.Places

variable {input place : Input} {failure : Failure} {label : String}

theorem eq_here (places : (Stop.here label place.ahead).Places input failure) (leads : input.Leads place) :
    failure = .here label place :=
  places.unique ((Failure.here_places label place).from leads)

theorem reports (places : (Stop.here label place.ahead).Places input failure) (leads : input.Leads place) :
    failure.Reports label place := by
  rw [places.eq_here leads]
  exact Failure.reports_here label place

end Stop.Places

namespace Parser

variable {Ref : Type → Type} {α : Type}

/-- Failures show where a cursor stands that the run has come to from its start; and what a parser without refusals and
limits fails for is the token under that cursor. -/
theorem failure_shows (parser : Parser Ref α) (wiring : Wiring Ref) (gauges : Gauges) {text : String} {input : Input}
    {failure : Failure} (reached : (Input.ofText text).Leads input)
    (rejected : (parser.parse wiring input gauges).reply = .reject failure) :
    ∃ place, input.Leads place ∧ failure.Shows place ∧
      ∀ known : ∀ α : Type, Ref α → Prop, parser.rule.Plain known → wiring.Plain known → failure.Finds place := by
  have replied := (parser.parse_agrees wiring input gauges).reply
  rw [rejected] at replied
  obtain ⟨stop, stopped, places⟩ := replied.of_reject
  obtain ⟨place, leads, ahead, shot⟩ := places.place
  have proper : place.Proper := (reached.trans leads).proper (Input.proper_ofText text)
  refine ⟨place, leads, Failure.shows_of_snapshot proper shot, ?_⟩
  intro known plain wired
  have answered := parser.rule.plain_trace (Wiring.plain_ask wired (wiring.budget input)) plain gauges.depths input.ahead
  exact Failure.finds_of_plain (answered stop stopped) places ahead shot

end Parser

namespace Joined

theorem plain_sumParser : sumParser.rule.Plain fun _ _ => True := by
  simp [sumParser, Parser.map, Parser.andThen, Parser.keepRight, Parser.opt, Parser.char, Parser.satisfy, Parser.forward,
    Rule.map, Rule.Plain]

theorem plain_wiring : Wiring.Plain (fun _ _ => True) wiring := by
  intro α ref rule _ wired
  cases ref with
  | sum =>
    cases wired
    exact plain_sumParser
  | unit =>
    cases wired
    simp [unitParser, Parser.orElse, Parser.between, Parser.keepLeft, Parser.keepRight, Parser.mapTo, Parser.map,
      Parser.andThen, Parser.char, Parser.satisfy, Parser.forward, Rule.map, Rule.Plain]

end Joined

/-- A sum in brackets, on the second line of a text, where the line ends before the closing bracket. -/
theorem failure_shows_lineFeed :
    let input := (Input.ofText "no\n(x+x\n)").advance 3
    let failure : Failure := ⟨")", .unexpected '\n', ⟨Line.ofText "(x+x", ⟨1, 4⟩⟩⟩
    (Joined.sumParser.parse Joined.wiring input []).reply = .reject failure ∧
      ∃ place, input.Leads place ∧ failure.Shows place ∧ failure.Finds place := by
  intro input failure
  have rejected : (Joined.sumParser.parse Joined.wiring input []).reply = .reject failure := rfl
  obtain ⟨place, leads, shows, finds⟩ :=
    Joined.sumParser.failure_shows Joined.wiring [] (Input.leads_advance _ 3) rejected
  exact ⟨rejected, place, leads, shows, finds _ Joined.plain_sumParser Joined.plain_wiring⟩

end Caret
