import Caret.Proofs.Diagnostics
import Caret.Proofs.Json.Acceptance
import Caret.Proofs.Json.Linking

/-!
What is reported of a document that breaks the grammar. The failure that is left is that of the last alternative, which
reads objects, or of the end of the input; so it is for what comes after a value, for the lack of an opening bracket
where the value was to be, or for the place where an object could not go on, however deep inside of it a part gave up.
-/

namespace Caret

def Input.pastBlanks (input : Input) : Input :=
  input.advance (input.tokens.takeWhile Text.isBlank).length

theorem Input.leads_pastBlanks (input : Input) : input.Leads input.pastBlanks :=
  input.leads_advance _

theorem Input.ahead_pastBlanks (input : Input) : input.pastBlanks.ahead = input.ahead.dropWhile Text.isBlank := by
  have split := List.takeWhile_append_dropWhile (p := Text.isBlank) (l := input.ahead)
  calc input.pastBlanks.ahead
    _ = input.ahead.drop (input.ahead.takeWhile Text.isBlank).length := by
      rw [pastBlanks, ahead_advance, tokens_eq_ahead]
    _ = (input.ahead.takeWhile Text.isBlank ++ input.ahead.dropWhile Text.isBlank).drop
        (input.ahead.takeWhile Text.isBlank).length := by rw [split]
    _ = input.ahead.dropWhile Text.isBlank := List.drop_left

theorem Input.next?_ne_of_head {input : Input} {token : Char} (other : input.ahead.head? ≠ some token) (rest : Input) :
    input.next? ≠ some (token, rest) :=
  fun taken => other (head?_ahead.mpr ⟨rest, taken⟩)

/-! ### Reading as far as there are elements -/

section Reading

variable {α : Type} (reply : Input → Reply α)

/-- Commas with an element after each, for as long as there are such: the elements, and where they end. -/
inductive GoesOn : Input → List α → Input → Prop
  | last {here : Input}
    (broke : ∀ next, here.next? = some (',', next) → ∃ failure, reply next.pastBlanks = .reject failure) :
    GoesOn here [] here
  | further {here next rest stop : Input} {value : α} {values : List α} (comma : here.next? = some (',', next))
    (element : reply next.pastBlanks = .accept value rest) (more : GoesOn rest values stop) :
    GoesOn here (value :: values) stop

inductive ReadsOn : Input → List α → Input → Prop
  | none {here : Input} {failure : Failure} (broke : reply here = .reject failure) : ReadsOn here [] here
  | some {here rest stop : Input} {value : α} {values : List α} (element : reply here = .accept value rest)
    (more : GoesOn reply rest values stop) : ReadsOn here (value :: values) stop

variable {reply} {here stop other : Input} {values others : List α}

theorem GoesOn.unique (goes : GoesOn reply here values stop) (too : GoesOn reply here others other) :
    values = others ∧ stop = other := by
  induction goes generalizing others with
  | last broke =>
    cases too with
    | last => exact ⟨rfl, rfl⟩
    | further comma element =>
      obtain ⟨failure, rejected⟩ := broke _ comma
      cases rejected.symm.trans element
  | further comma element _ ih =>
    cases too with
    | last broke =>
      obtain ⟨failure, rejected⟩ := broke _ comma
      cases rejected.symm.trans element
    | further comma' element' more' =>
      cases comma.symm.trans comma'
      cases element.symm.trans element'
      obtain ⟨rfl, same⟩ := ih more'
      exact ⟨rfl, same⟩

/-- The elements and the place where they end are determined. -/
theorem ReadsOn.unique (reads : ReadsOn reply here values stop) (too : ReadsOn reply here others other) :
    values = others ∧ stop = other := by
  cases reads with
  | none broke =>
    cases too with
    | none => exact ⟨rfl, rfl⟩
    | some element => cases broke.symm.trans element
  | some element more =>
    cases too with
    | none broke => cases broke.symm.trans element
    | some element' more' =>
      cases element.symm.trans element'
      obtain ⟨rfl, same⟩ := more.unique more'
      exact ⟨rfl, same⟩

end Reading

namespace Trace

variable {α : Type}

/-- A repetition of rounds that move is over where a round stops, or goes on after a round. -/
theorem took_of_many {name : String} {step : List Char → Trace α} {ahead rest : List Char} {values : List α}
    (moves : ∀ value rest, (step ahead).answer = .took value rest → rest.length < ahead.length)
    (taken : (many name step ahead).answer = .took values rest) :
    (∃ stop, (step ahead).answer = .stopped stop ∧ values = [] ∧ rest = ahead) ∨
      ∃ value middle others, (step ahead).answer = .took value middle ∧ values = value :: others ∧
        (many name step middle).answer = .took others rest := by
  cases answer : (step ahead).answer with
  | took value middle =>
    rw [answer_many answer (moves value middle answer)] at taken
    obtain ⟨others, last, further, same⟩ := took_of_bind taken
    cases same
    exact .inr ⟨value, middle, others, rfl, rfl, further⟩
  | stopped stop =>
    rw [answer_many_of_stopped answer] at taken
    cases taken
    exact .inl ⟨stop, rfl, rfl, rfl⟩
  | broken fault => simp [many, many1_eq, bind, recover, answer] at taken

/-! ### Without refusals -/

section Silent

variable {gauge : Nat} {trace : Trace α}

theorem silent_of_bind {β : Type} {next : α → List Char → Trace β}
    (silent : Note.firstRefusal gauge (trace.bind next).notes = none) : Note.firstRefusal gauge trace.notes = none := by
  unfold bind at silent
  cases answer : trace.answer with
  | took value rest =>
    simp only [answer, after, Note.firstRefusal_append, Option.or_eq_none_iff] at silent
    exact silent.1
  | stopped stop => simpa only [answer] using silent
  | broken fault => simpa only [answer] using silent

theorem silent_of_recover {other : Trace α} {stop : Stop} (stopped : trace.answer = .stopped stop)
    (silent : Note.firstRefusal gauge (trace.recover other).notes = none) :
    Note.firstRefusal gauge other.notes = none := by
  simp only [recover, stopped, after, Note.firstRefusal_append, Option.or_eq_none_iff] at silent
  exact silent.2

end Silent

end Trace

/-- A container that is not refused runs one level deeper. -/
theorem Rule.traceNested_of_silent {α : Type} {gauge limit : Nat} {label : String} {opener : Char}
    {body : Depths → List Char → Trace α} {depths : Depths} {ahead : List Char}
    (silent : Note.firstRefusal gauge (traceNested gauge label opener limit body depths ahead).notes = none) :
    traceNested gauge label opener limit body depths ahead = body (depths.deeper gauge) ahead := by
  unfold traceNested at silent ⊢
  split
  · next refused => simp [refused, Note.firstRefusal, Note.refusal?] at silent
  · rfl

end Caret

namespace Caret.Json

open Caret.Parser

section Rules

variable {Ref : Type → Type} (ask : Ask Ref) {depths : Depths} {ahead rest : List Char} {stop : Stop}

/-! ### Tokens and elements -/

theorem took_of_token {expected char : Char}
    (taken : ((token expected).trace ask depths ahead).answer = .took char rest) :
    ∃ after, ahead = expected :: after ∧ rest = after.dropWhile Text.isBlank := by
  rw [token, trace_keepLeft, trace_char] at taken
  obtain ⟨first, after, front, back⟩ := Trace.took_of_bind taken
  obtain ⟨accepted, rfl⟩ := Rule.took_of_traceSatisfy front
  rw [trace_spaces, Trace.map_took] at back
  cases back
  exact ⟨after, by rw [eq_of_beq accepted], rfl⟩

theorem stopped_of_token {expected : Char}
    (stopped : ((token expected).trace ask depths ahead).answer = .stopped stop) :
    ahead.head? ≠ some expected ∧ stop = .here expected.toString ahead := by
  cases ahead with
  | nil =>
    cases stopped
    exact ⟨nofun, rfl⟩
  | cons first after =>
    by_cases same : first = expected
    · rw [same, trace_token] at stopped
      cases stopped
    · rw [trace_token_other ask same] at stopped
      cases stopped
      exact ⟨fun first => same (Option.some.inj first), rfl⟩

section Elements

variable {α : Type} {element : Parser Ref α} {reply : Input → Reply α} {input here : Input} {values : List α}
  (within : Ask.Within ask)
  (replies : ∀ here, input.Leads here → (element.trace ask depths here.ahead).answer.Places here (reply here))

include within replies

/-- By induction on the tokens ahead: every round takes its comma. -/
theorem goesOn_of_took {name : String} (leads : input.Leads here)
    (taken : (Trace.many name (((token ',').keepRight element).trace ask depths) here.ahead).answer =
      .took values rest) :
    ∃ stop, here.Leads stop ∧ stop.ahead = rest ∧ GoesOn reply here values stop := by
  induction size : here.ahead.length using Nat.strongRecOn generalizing here values with
  | ind size ih =>
    subst size
    have advances : ((token ',').keepRight element).rule.Advances := advances_keepRight (.inl (advances_token ','))
    have moves : ∀ value rest, (((token ',').keepRight element).trace ask depths here.ahead).answer = .took value rest →
        rest.length < here.ahead.length :=
      ((token ',').keepRight element).rule.length_lt_of_advances within advances depths here.ahead
    rcases Trace.took_of_many moves taken with ⟨stop, stopped, rfl, rfl⟩ | ⟨value, middle, others, front, rfl, further⟩
    · refine ⟨here, .here here, rfl, .last fun next comma => ?_⟩
      rw [Input.ahead_of_next? comma, trace_keepRight, trace_token, Trace.bind_took, ← Input.ahead_pastBlanks] at stopped
      have placed := replies next.pastBlanks (leads.trans (.step comma next.leads_pastBlanks))
      rw [stopped] at placed
      obtain ⟨failure, rejected, -⟩ := placed.of_stopped
      exact ⟨failure, rejected⟩
    · have shorter := moves value middle front
      rw [trace_keepRight] at front
      obtain ⟨char, after, opened, read⟩ := Trace.took_of_bind front
      obtain ⟨tokens, found, rfl⟩ := took_of_token ask opened
      obtain ⟨next, comma, rfl⟩ := Input.next?_of_ahead found
      have onward : here.Leads next.pastBlanks := .step comma next.leads_pastBlanks
      have placed := replies next.pastBlanks (leads.trans onward)
      rw [Input.ahead_pastBlanks, read] at placed
      obtain ⟨last, accepted, passed, rfl⟩ := placed.of_took
      have reached := onward.trans passed
      obtain ⟨stop, beyond, ended, goes⟩ := ih _ shorter (leads.trans reached) further rfl
      exact ⟨stop, reached.trans beyond, ended, .further comma accepted goes⟩

theorem readsOn_of_took (leads : input.Leads here)
    (taken : ((element.sepBy (token ',')).trace ask depths here.ahead).answer = .took values rest) :
    ∃ stop, here.Leads stop ∧ stop.ahead = rest ∧ ReadsOn reply here values stop := by
  have placed := replies here leads
  rw [trace_sepBy, trace_sepBy1] at taken
  rcases Trace.took_of_recover taken with taken | ⟨⟨stop, stopped⟩, none⟩
  · obtain ⟨value, middle, front, back⟩ := Trace.took_of_bind taken
    obtain ⟨others, last, further, same⟩ := Trace.took_of_bind back
    cases same
    rw [front] at placed
    obtain ⟨next, accepted, passed, rfl⟩ := placed.of_took
    obtain ⟨stop, beyond, ended, goes⟩ := goesOn_of_took ask within replies (leads.trans passed) further
    exact ⟨stop, passed.trans beyond, ended, .some accepted goes⟩
  · cases none
    rcases Trace.stopped_of_bind stopped with stopped | ⟨value, middle, -, stopped⟩
    · rw [stopped] at placed
      obtain ⟨failure, rejected, -⟩ := placed.of_stopped
      exact ⟨here, .here here, rfl, .none rejected⟩
    · exact absurd (Trace.stopped_of_map stopped) (Trace.many_answer_ne_stopped _ _ _ _)

end Elements

theorem sepBy_ne_stopped {α β : Type} (element : Parser Ref α) (separator : Parser Ref β) :
    ((element.sepBy separator).trace ask depths ahead).answer ≠ .stopped stop := by
  rw [trace_sepBy]
  intro stopped
  exact nomatch (Trace.stopped_of_recover stopped).2

/-! ### Objects -/

section Collected

variable {policy : DuplicateKeys} {members : Parser Ref (List (String × Json))}

theorem took_of_collected {object : List (String × Json)}
    (taken : ((collected policy members).trace ask depths ahead).answer = .took object rest) :
    ∃ found, (members.trace ask depths ahead).answer = .took found rest ∧
      (policy = .reject → (found.map Prod.fst).Nodup) := by
  cases policy with
  | lastWins =>
    rw [collected, trace_map, trace_reporting] at taken
    obtain ⟨same, middle, front, back⟩ := Trace.took_of_bind taken
    obtain ⟨found, last, first, further⟩ := Trace.took_of_bind front
    cases further
    cases back
    exact ⟨_, first, fun rejecting => DuplicateKeys.noConfusion rejecting⟩
  | reject =>
    rw [collected, trace_tryMap] at taken
    obtain ⟨found, last, first, further⟩ := Trace.took_of_bind taken
    cases together : distinctMembers found with
    | ok object =>
      rw [together] at further
      cases further
      exact ⟨found, first, fun _ => (distinctMembers_eq_ok.mp together).1⟩
    | error message =>
      rw [together] at further
      cases further

/-- Members that have been read are refused for a name that they repeat, and for nothing else. -/
theorem stopped_of_collected (stopped : ((collected policy members).trace ask depths ahead).answer = .stopped stop) :
    (members.trace ask depths ahead).answer = .stopped stop ∨
      policy = .reject ∧ ∃ found rest name, (members.trace ask depths ahead).answer = .took found rest ∧
        Members.FirstRepeat name found ∧ stop = ⟨members.label, .refused s!"Duplicate key {shown name}", ahead⟩ := by
  cases policy with
  | lastWins =>
    rw [collected, trace_map, trace_reporting] at stopped
    rcases Trace.stopped_of_bind (Trace.stopped_of_map stopped) with stopped | ⟨found, rest, -, said⟩
    · exact .inl stopped
    · cases said
  | reject =>
    rw [collected, trace_tryMap] at stopped
    rcases Trace.stopped_of_bind stopped with stopped | ⟨found, rest, taken, refused⟩
    · exact .inl stopped
    · cases together : distinctMembers found with
      | ok object =>
        rw [together] at refused
        cases refused
      | error message =>
        rw [together] at refused
        cases refused
        obtain ⟨name, again, rfl⟩ := firstRepeat_of_distinctMembers together
        exact .inr ⟨rfl, found, rest, name, taken, again, rfl⟩

end Collected

def memberRule (value : Parser Ref Json) : Parser Ref (String × Json) :=
  ((quotedString.keepLeft spaces).keepLeft (token ':')).andThen (value.keepLeft spaces)

/-- Where and for what an object gives up: before its bracket, for a name that occurs again, or after its members. -/
inductive ObjectStops (policy : DuplicateKeys) (members : List Char → Answer (List (String × Json)))
    (ahead : List Char) : Stop → Prop
  | unopened (other : ahead.head? ≠ some '\x7b') : ObjectStops policy members ahead (.here "object" ahead)
  | repeated {inside rest : List Char} {found : List (String × Json)} {name : String}
    (opened : ahead = '\x7b' :: inside) (taken : members (inside.dropWhile Text.isBlank) = .took found rest)
    (rejecting : policy = .reject) (again : Members.FirstRepeat name found) :
    ObjectStops policy members ahead
      ⟨"object", .refused s!"Duplicate key {shown name}", inside.dropWhile Text.isBlank⟩
  | unclosed {inside rest : List Char} {found : List (String × Json)}
    (opened : ahead = '\x7b' :: inside) (taken : members (inside.dropWhile Text.isBlank) = .took found rest)
    (distinct : policy = .reject → (found.map Prod.fst).Nodup) (other : rest.head? ≠ some '\x7d') :
    ObjectStops policy members ahead (.here "object" rest)

theorem stopped_of_object (value : Parser Ref Json) (policy : DuplicateKeys) (solid : Solid ahead)
    (stopped : ((objectRule value policy).trace ask depths ahead).answer = .stopped stop) :
    ObjectStops policy (fun ahead => (((memberRule value).sepBy (token ',')).trace ask depths ahead).answer) ahead
      stop := by
  have whole : objectRule value policy = ((between (spaces.keepRight (token '\x7b'))
      (collected policy ((memberRule value).sepBy (token ','))) (token '\x7d')).map object).withLabel "object" := rfl
  rw [whole, trace_withLabel, trace_map, trace_between, trace_keepRight, trace_spaces, solid.dropWhile,
    Trace.bind_took] at stopped
  obtain ⟨inner, gaveUp, rfl⟩ := Trace.stopped_of_relabel stopped
  rcases Trace.stopped_of_bind (Trace.stopped_of_map gaveUp) with stopped | ⟨char, after, entered, stopped⟩
  · obtain ⟨other, rfl⟩ := stopped_of_token ask stopped
    rw [Stop.relabel_here]
    exact .unopened other
  · obtain ⟨inside, opened, rfl⟩ := took_of_token ask entered
    rcases Trace.stopped_of_bind stopped with stopped | ⟨object, rest, taken, stopped⟩
    · rcases stopped_of_collected ask stopped with stopped | ⟨rejecting, found, rest, name, taken, again, rfl⟩
      · exact absurd stopped (sepBy_ne_stopped ask _ _)
      · exact .repeated opened taken rejecting again
    · obtain ⟨found, taken, distinct⟩ := took_of_collected ask taken
      obtain ⟨other, rfl⟩ := stopped_of_token ask (Trace.stopped_of_map stopped)
      rw [Stop.relabel_here]
      exact .unclosed opened taken distinct other

/-! ### Values and documents -/

section Grammars

variable {link : Ref Json} {gauge : Nat} {options : Options}

/-- Whatever the other alternatives gave up for, the failure is that of the object, which is tried last. -/
theorem stopped_of_alternatives (solid : Solid ahead)
    (stopped : ((Grammar.ofLink link gauge options).alternatives.trace ask depths ahead).answer = .stopped stop)
    (silent : Note.firstRefusal gauge
      ((Grammar.ofLink link gauge options).alternatives.trace ask depths ahead).notes = none) :
    ObjectStops options.duplicateKeys (fun ahead =>
      (((memberRule (forward "value" link)).sepBy (token ',')).trace ask (depths.deeper gauge) ahead).answer) ahead
      stop := by
  rw [trace_alternatives] at stopped silent
  obtain ⟨⟨first, gaveUp⟩, stopped⟩ := Trace.stopped_of_recover stopped
  rw [Rule.traceNested_of_silent (Trace.silent_of_recover gaveUp silent)] at stopped
  exact stopped_of_object ask _ _ solid stopped

theorem trace_document :
    (Grammar.ofLink link gauge options).document.trace ask depths ahead =
      (((forward "value" link).trace ask depths (ahead.dropWhile Text.isBlank)).bind fun value rest =>
        .took value (rest.dropWhile Text.isBlank)).bind fun value rest =>
          (Rule.traceFinish "end of input" rest).map fun _ => value := by
  change (((spaces.keepRight (forward "value" link)).keepLeft spaces).keepLeft finish).trace ask depths ahead = _
  rw [trace_keepLeft, trace_keepLeft, trace_keepRight, trace_spaces, Trace.bind_took]
  simp only [trace_spaces, Trace.map_took]
  rfl

/-- A document gives up where its value does, or before what comes after the value. -/
theorem stopped_of_document
    (stopped : ((Grammar.ofLink link gauge options).document.trace ask depths ahead).answer = .stopped stop) :
    ((forward "value" link).trace ask depths (ahead.dropWhile Text.isBlank)).answer = .stopped stop ∨
      ∃ value rest, ((forward "value" link).trace ask depths (ahead.dropWhile Text.isBlank)).answer = .took value rest ∧
        rest.dropWhile Text.isBlank ≠ [] ∧ stop = .here "end of input" (rest.dropWhile Text.isBlank) := by
  rw [trace_document] at stopped
  rcases Trace.stopped_of_bind stopped with stopped | ⟨value, after, taken, stopped⟩
  · rcases Trace.stopped_of_bind stopped with stopped | ⟨value, rest, taken, stopped⟩
    · exact .inl stopped
    · cases stopped
  · obtain ⟨same, rest, front, spread⟩ := Trace.took_of_bind taken
    cases spread
    have gaveUp := Trace.stopped_of_map stopped
    unfold Rule.traceFinish at gaveUp
    split at gaveUp
    · cases gaveUp
    · next more =>
      cases gaveUp
      exact .inr ⟨_, rest, front, fun none => more (List.isEmpty_iff.mpr none), rfl⟩

theorem silent_of_document
    (silent : Note.firstRefusal gauge
      ((Grammar.ofLink link gauge options).document.trace ask depths ahead).notes = none) :
    Note.firstRefusal gauge
      ((forward "value" link).trace ask depths (ahead.dropWhile Text.isBlank)).notes = none := by
  rw [trace_document] at silent
  exact Trace.silent_of_bind (Trace.silent_of_bind silent)

end Grammars

end Rules

/-! ### Replies -/

section Replies

variable {options : Options}

/-- With a budget above the tokens ahead, a value is one of the alternatives. -/
theorem trace_value {budget : Nat} {ahead : List Char} (enough : ahead.length < budget) (depths : Depths) :
    (forward "value" Link.value).trace ((Grammar.ofOptions options).wiring.ask budget) depths ahead =
      (Grammar.ofLink Link.value 0 options).alternatives.trace ((Grammar.ofOptions options).wiring.ask budget) depths
        ahead := by
  obtain ⟨less, rfl⟩ : ∃ less, budget = less + 1 := ⟨budget - 1, by omega⟩
  have guarded := guarded_alternatives Link.value 0 options
  have clear : ∀ budget, ahead.length ≤ budget → ((Grammar.ofLink Link.value 0 options).alternatives.rule.trace
      ((Grammar.ofOptions options).wiring.ask budget) depths ahead).Clear Fault.Endless := by
    intro budget enough fault broke
    exact absurd broke (Grammar.sound_of_near options _ (.inr ⟨enough, guarded⟩) depths fault)
  rw [forward_eq value_wired]
  exact Rule.trace_eq_of_clear (clear less (by omega)) (clear (less + 1) (by omega))

def replyAt {α : Type} (options : Options) (parser : Parser Link α) (depth : Nat) (input : Input) : Reply α :=
  (parser.parse (Grammar.ofOptions options).wiring input [(0, { depth })]).reply

theorem places_replyAt {α : Type} (options : Options) (parser : Parser Link α) (depth : Nat) {input here : Input}
    (leads : input.Leads here) :
    (parser.trace ((Grammar.ofOptions options).wiring.ask ((Grammar.ofOptions options).wiring.budget input))
      (Gauges.depths [(0, { depth })]) here.ahead).answer.Places here (replyAt options parser depth here) := by
  have same : (Grammar.ofOptions options).wiring.budget input = (Grammar.ofOptions options).wiring.budget here := by
    rw [Wiring.budget, Wiring.budget, leads.source]
  rw [same]
  exact (parser.parse_agrees (Grammar.ofOptions options).wiring here [(0, { depth })]).reply

theorem depths_none : Gauges.depths [(0, { depth := 0 })] = Gauges.depths [] := by
  funext gauge
  by_cases own : 0 = gauge <;> simp [Gauges.depths, Gauges.get, own]

theorem depths_one : Gauges.depths [(0, { depth := 1 })] = (Gauges.depths []).deeper 0 := by
  funext gauge
  by_cases own : 0 = gauge
  · simp [Gauges.depths, Gauges.get, Depths.deeper, own]
  · simp [Gauges.depths, Gauges.get, Depths.deeper, own, Ne.symm own]

def membersAnswer (options : Options) (budget : Nat) (ahead : List Char) : Answer (List (String × Json)) :=
  (((memberRule (Grammar.ofOptions options).value).sepBy (token ',')).trace ((Grammar.ofOptions options).wiring.ask
    budget) ((Gauges.depths []).deeper 0) ahead).answer

theorem readsOn_members {input inside : Input} {found : List (String × Json)} {rest : List Char}
    (leads : input.Leads inside)
    (taken : membersAnswer options ((Grammar.ofOptions options).wiring.budget input)
      (inside.ahead.dropWhile Text.isBlank) = .took found rest) :
    ∃ stop, inside.pastBlanks.Leads stop ∧ stop.ahead = rest ∧
      ReadsOn (replyAt options (memberRule (Grammar.ofOptions options).value) 1) inside.pastBlanks found stop := by
  rw [membersAnswer, ← depths_one, ← Input.ahead_pastBlanks] at taken
  exact readsOn_of_took _ (Wiring.within_ask _ _) (fun here => places_replyAt options _ 1)
    (leads.trans inside.leads_pastBlanks) taken

/-! ### Three ways to break the grammar -/

inductive Trailing (options : Options) (start : Input) (failure : Failure) : Prop
  | mk {value : Json} {rest next : Input} {token : Char}
    (read : replyAt options (Grammar.ofOptions options).value 0 start = .accept value rest)
    (more : rest.pastBlanks.next? = some (token, next)) (label : failure.label = "end of input")
    (message : failure.message = s!"Unexpected '{token}'") (place : failure.place = rest.pastBlanks.snapshot)

structure Missing (options : Options) (start : Input) (failure : Failure) : Prop where
  unread : ∃ inner, replyAt options (Grammar.ofOptions options).value 0 start = .reject inner
  unopened : ∀ inside, start.next? ≠ some ('\x7b', inside)
  reports : failure.Reports "object" start

/-- An object has been opened and its members are read as far as there are any. Either two of them have one name, and
that is not allowed, or no closing bracket comes after them. -/
inductive Unfinished (options : Options) (start : Input) (failure : Failure) : Prop
  | repeated {inside stop : Input} {members : List (String × Json)} {name : String}
    (opened : start.next? = some ('\x7b', inside))
    (read : ReadsOn (replyAt options (memberRule (Grammar.ofOptions options).value) 1) inside.pastBlanks members stop)
    (rejecting : options.duplicateKeys = .reject) (again : Members.FirstRepeat name members)
    (label : failure.label = "object") (message : failure.message = s!"Duplicate key {shown name}")
    (place : failure.place = inside.pastBlanks.snapshot)
  | unclosed {inside stop : Input} {members : List (String × Json)}
    (opened : start.next? = some ('\x7b', inside))
    (read : ReadsOn (replyAt options (memberRule (Grammar.ofOptions options).value) 1) inside.pastBlanks members stop)
    (distinct : options.duplicateKeys = .reject → (members.map Prod.fst).Nodup)
    (other : ∀ rest, stop.next? ≠ some ('\x7d', rest)) (reports : failure.Reports "object" stop)

section Ways

variable {start : Input} {failure : Failure}

theorem Unfinished.label (unfinished : Unfinished options start failure) : failure.label = "object" := by
  cases unfinished with
  | repeated opened read rejecting again label => exact label
  | unclosed opened read distinct other reports => exact reports.label

theorem Unfinished.opened (unfinished : Unfinished options start failure) :
    ∃ inside, start.next? = some ('\x7b', inside) := by
  cases unfinished with
  | repeated opened => exact ⟨_, opened⟩
  | unclosed opened => exact ⟨_, opened⟩

theorem Trailing.label_ne (trailing : Trailing options start failure) : failure.label ≠ "object" := by
  obtain ⟨-, -, label, -, -⟩ := trailing
  rw [label]
  decide

theorem Trailing.of_places {input rest : Input} {value : Json}
    (read : replyAt options (Grammar.ofOptions options).value 0 start = .accept value rest) (leads : input.Leads rest)
    (more : rest.pastBlanks.ahead ≠ [])
    (places : (Stop.here "end of input" rest.pastBlanks.ahead).Places input failure) :
    Trailing options start failure := by
  obtain rfl : failure = .here "end of input" rest.pastBlanks := places.eq_here (leads.trans rest.leads_pastBlanks)
  cases found : rest.pastBlanks.next? with
  | none => exact absurd (Input.next?_eq_none.mp found) more
  | some next =>
    have reported : Failure.here "end of input" rest.pastBlanks =
        ⟨"end of input", .unexpected next.1, rest.pastBlanks.snapshot⟩ := by
      rw [Failure.here, found]
    rw [reported]
    exact .mk read found rfl rfl rfl

/-- What an object stops for, told of cursors. -/
theorem ObjectStops.told {input : Input} {stop : Stop} (leads : input.Leads start)
    (stops : ObjectStops options.duplicateKeys
      (membersAnswer options ((Grammar.ofOptions options).wiring.budget input)) start.ahead stop)
    (places : stop.Places input failure)
    (unread : ∃ inner, replyAt options (Grammar.ofOptions options).value 0 start = .reject inner) :
    Missing options start failure ∨ Unfinished options start failure := by
  cases stops with
  | unopened other => exact .inl ⟨unread, Input.next?_ne_of_head other, places.reports leads⟩
  | repeated opened taken rejecting again =>
    obtain ⟨inside, entered, rfl⟩ := Input.next?_of_ahead opened
    obtain ⟨stop, passed, ended, reads⟩ := readsOn_members (leads.trans (.of_next? entered)) taken
    refine .inr (.repeated entered reads rejecting again places.label ?_ ?_)
    · rw [Failure.message, places.reason]
      rfl
    · obtain ⟨place, further, same, shot⟩ := places.place
      rw [shot, further.unique (leads.trans (.step entered inside.leads_pastBlanks))
        (same.trans inside.ahead_pastBlanks.symm)]
  | unclosed opened taken distinct other =>
    obtain ⟨inside, entered, rfl⟩ := Input.next?_of_ahead opened
    obtain ⟨stop, passed, rfl, reads⟩ := readsOn_members (leads.trans (.of_next? entered)) taken
    have onward : input.Leads stop := leads.trans (.step entered (inside.leads_pastBlanks.trans passed))
    exact .inr (.unclosed entered reads distinct (Input.next?_ne_of_head other) (places.reports onward))

end Ways

theorem trailing_or_missing_or_unfinished {text : String} {failure : Failure}
    (failed : parse text options = .error (.malformed failure)) :
    Trailing options (Input.ofText text).pastBlanks failure ∨ Missing options (Input.ofText text).pastBlanks failure ∨
      Unfinished options (Input.ofText text).pastBlanks failure := by
  have settles := (Grammar.ofOptions options).read_settles (Grammar.ofOptions options).wiring text []
  change Settles _ _ _ _ (parse text options) at settles
  rw [failed] at settles
  generalize Input.ofText text = input at settles ⊢
  have start : input.pastBlanks.ahead = input.ahead.dropWhile Text.isBlank := input.ahead_pastBlanks
  -- The value inside the document and the value on its own pay from one budget, so they have one trace.
  have replied := places_replyAt options (Grammar.ofOptions options).value 0 input.leads_pastBlanks
  rw [depths_none] at replied
  cases settles with
  | @malformed stop _ stopped silent places =>
    have quiet := silent_of_document _ silent
    rcases stopped_of_document _ stopped with stopped | ⟨value, rest, taken, more, rfl⟩
    · have enough : input.pastBlanks.ahead.length < (Grammar.ofOptions options).wiring.budget input :=
        Nat.lt_of_le_of_lt input.leads_pastBlanks.length_le (Wiring.length_lt_budget _ input)
      have solid : Solid input.pastBlanks.ahead := start ▸ solid_dropWhile input.ahead
      rw [← start] at stopped quiet
      obtain ⟨inner, rejected, -⟩ := (stopped ▸ replied : (Answer.stopped stop).Places _ _).of_stopped
      rw [trace_value enough] at stopped quiet
      exact .inr ((stopped_of_alternatives _ solid stopped quiet).told input.leads_pastBlanks places ⟨inner, rejected⟩)
    · rw [← start] at taken
      obtain ⟨after, accepted, passed, rfl⟩ := (taken ▸ replied : (Answer.took value rest).Places _ _).of_took
      rw [← after.ahead_pastBlanks] at places more
      exact .inl (.of_places accepted (input.leads_pastBlanks.trans passed) more places)

/-- A document that breaks the grammar is reported in exactly one of three ways: for what comes after its value, for the
lack of a value where it was to begin, or for the place where an object at the top could not go on. -/
theorem malformed_once {text : String} {failure : Failure} (failed : parse text options = .error (.malformed failure)) :
    let start := (Input.ofText text).pastBlanks
    Trailing options start failure ∧ ¬Missing options start failure ∧ ¬Unfinished options start failure ∨
      ¬Trailing options start failure ∧ Missing options start failure ∧ ¬Unfinished options start failure ∨
        ¬Trailing options start failure ∧ ¬Missing options start failure ∧ Unfinished options start failure := by
  intro start
  have apart : Missing options start failure → ¬Unfinished options start failure := by
    intro missing unfinished
    obtain ⟨inside, opened⟩ := unfinished.opened
    exact missing.unopened inside opened
  rcases trailing_or_missing_or_unfinished failed with trailing | missing | unfinished
  · exact .inl ⟨trailing, fun missing => trailing.label_ne missing.reports.label,
      fun unfinished => trailing.label_ne unfinished.label⟩
  · exact .inr (.inl ⟨fun trailing => trailing.label_ne missing.reports.label, missing, apart missing⟩)
  · exact .inr (.inr ⟨fun trailing => trailing.label_ne unfinished.label, fun missing => apart missing unfinished,
      unfinished⟩)

/-- Arrays on the second line that end in no value, and an object with a name twice where that is not allowed. -/
theorem malformed_once_twice :
    let missing : Failure := ⟨"object", .unexpected '[', ⟨Line.ofText "[[],[x]]", ⟨1, 0⟩⟩⟩
    let repeated : Failure := ⟨"object", .refused "Duplicate key \"a\"", ⟨Line.ofText "\x7b\"a\":[],", ⟨0, 1⟩⟩⟩
    Missing ⟨.lastWins, 4⟩ (Input.ofText "\n[[],[x]]").pastBlanks missing ∧
      Unfinished ⟨.reject, 4⟩ (Input.ofText "\x7b\"a\":[],\n\"a\":[]\x7d").pastBlanks repeated := by
  intro missing repeated
  constructor
  · have failed : parse "\n[[],[x]]" ⟨.lastWins, 4⟩ = .error (.malformed missing) := rfl
    rcases malformed_once failed with trailing | missing | unfinished
    · exact absurd rfl trailing.1.label_ne
    · exact missing.2.1
    · obtain ⟨inside, opened⟩ := unfinished.2.2.opened
      have first : (Input.ofText "\n[[],[x]]").pastBlanks.next?.map Prod.fst = some '[' := rfl
      rw [opened] at first
      have different : '\x7b' ≠ '[' := by decide
      exact absurd (Option.some.inj first) different
  · have failed : parse "\x7b\"a\":[],\n\"a\":[]\x7d" ⟨.reject, 4⟩ = .error (.malformed repeated) := rfl
    rcases malformed_once failed with trailing | missing | unfinished
    · exact absurd rfl trailing.1.label_ne
    · exact absurd rfl (missing.2.1.unopened _)
    · exact unfinished.2.2

end Replies

end Caret.Json
