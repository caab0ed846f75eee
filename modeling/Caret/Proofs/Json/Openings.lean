import Caret.Proofs.Json.Malformed

/-!
Where containers are refused, and where they open. At the limit a rule looks for its bracket past the blanks under the
cursor, but shows its refusal where the blanks begin; so the bracket is what is shown just if no blank is before it.
Objects open past blanks and arrays do not: behind blanks, an array is refused that would not have opened.
-/

namespace Caret

/-! ### Messages -/

def Reason.TooDeep (reason : Reason) : Prop :=
  ∃ limit : Nat, reason.message = s!"Nesting too deep, limit is {limit}"

namespace Reason

theorem not_tooDeep_duplicate (name : String) : ¬(refused s!"Duplicate key {shown name}").TooDeep :=
  fun ⟨_, same⟩ => Text.append_ne_append (by decide) (by decide) _ _ same

theorem not_tooDeep_here (label : String) (ahead : List Char) : ¬(Stop.here label ahead).reason.TooDeep := by
  rintro ⟨limit, same⟩
  cases ahead with
  | nil =>
    have whole : "No more input" ++ "" = s!"Nesting too deep, limit is {limit}" := String.append_empty.trans same
    exact Text.append_ne_append (by decide) (by decide) _ _ whole
  | cons token ahead =>
    have whole : s!"Unexpected '{token}'" = s!"Nesting too deep, limit is {limit}" := same
    rw [String.append_assoc] at whole
    exact Text.append_ne_append (by decide) (by decide) _ _ whole

end Reason

/-! ### Brackets past blanks -/

namespace Input

variable {input rest : Input} {token : Char}

theorem firstSolid?_eq_some : input.firstSolid? = some token ↔ ∃ rest, input.pastBlanks.next? = some (token, rest) := by
  rw [firstSolid?_eq, ← ahead_pastBlanks]
  exact head?_ahead

/-- A token past the blanks stands under the cursor just if there are no blanks. -/
theorem pastBlanks_position (found : input.pastBlanks.next? = some (token, rest)) :
    input.pastBlanks.position = input.position ↔ input.next? = some (token, rest) := by
  constructor
  · intro same
    have size := input.leads_pastBlanks.position_eq_iff.mp same
    have stays : input.pastBlanks = input := input.leads_pastBlanks.unique (.here input)
      (input.leads_pastBlanks.ahead_suffix.eq_of_length size)
    rwa [stays] at found
  · intro taken
    have solid := Json.solid_dropWhile input.ahead
    rw [← ahead_pastBlanks, ahead_of_next? found] at solid
    apply input.leads_pastBlanks.position_eq_iff.mpr
    rw [ahead_of_next? found, ahead_of_next? taken]

end Input

inductive Reply.Beyond {α : Type} (inside : Input) : Reply α → Prop
  | accepted {value : α} {rest : Input} (leads : inside.Leads rest) : Beyond inside (.accept value rest)
  | rejected {failure : Failure} {place : Input} (leads : inside.Leads place) (shot : failure.place = place.snapshot) :
    Beyond inside (.reject failure)

theorem Trace.relabel_after {α : Type} (notes : List Note) (trace : Trace α) (label : String) :
    (trace.after notes).relabel label = (trace.relabel label).after notes := by
  obtain ⟨answer, more⟩ := trace
  cases answer <;> rfl

/-- An answer from beyond a cursor that the run has come to is a reply from beyond it, if it is no fault. -/
theorem Answer.Places.beyond {α : Type} {input inside next : Input} {answer : Answer α} {reply other : Reply α}
    (places : answer.Places input reply) (onward : answer.Places next other) (leads : input.Leads inside)
    (further : inside.Leads next) (sound : ∀ fault, answer ≠ .broken fault) : reply.Beyond inside := by
  rw [places.unique (onward.from (leads.trans further))]
  cases onward with
  | took passed => exact .accepted (further.trans passed)
  | stopped placed =>
    obtain ⟨place, passed, -, shot⟩ := placed.place
    exact .rejected (further.trans passed) shot
  | broken => exact absurd rfl (sound _)

namespace Json

open Caret.Parser

/-! ### What rules of containers give up for -/

section Rules

variable {Ref : Type → Type} (ask : Ask Ref) {depths : Depths} {ahead : List Char} {stop : Stop}

theorem not_tooDeep_of_array {value : Parser Ref Json}
    (stopped : ((arrayRule value).trace ask depths ahead).answer = .stopped stop) : ¬stop.reason.TooDeep := by
  rw [arrayRule, trace_withLabel, trace_map, trace_between] at stopped
  obtain ⟨inner, gaveUp, rfl⟩ := Trace.stopped_of_relabel stopped
  rcases Trace.stopped_of_bind (Trace.stopped_of_map gaveUp) with stopped | ⟨char, after, -, stopped⟩
  · obtain ⟨-, rfl⟩ := stopped_of_token ask stopped
    exact Reason.not_tooDeep_here _ _
  · rcases Trace.stopped_of_bind stopped with stopped | ⟨items, rest, -, stopped⟩
    · exact absurd stopped (sepBy_ne_stopped ask _ _)
    · obtain ⟨-, rfl⟩ := stopped_of_token ask (Trace.stopped_of_map stopped)
      exact Reason.not_tooDeep_here _ _

/-- Objects pass over blanks before they open. -/
theorem trace_object_dropWhile (value : Parser Ref Json) (policy : DuplicateKeys) :
    (objectRule value policy).trace ask depths ahead =
      (objectRule value policy).trace ask depths (ahead.dropWhile Text.isBlank) := by
  simp only [objectRule, trace_withLabel, trace_map, trace_between]
  rw [trace_keepRight, trace_keepRight, trace_spaces, trace_spaces, (solid_dropWhile ahead).dropWhile]
  rfl

theorem not_tooDeep_of_object {value : Parser Ref Json} {policy : DuplicateKeys}
    (stopped : ((objectRule value policy).trace ask depths ahead).answer = .stopped stop) : ¬stop.reason.TooDeep := by
  rw [trace_object_dropWhile] at stopped
  cases stopped_of_object ask value policy (solid_dropWhile ahead) stopped with
  | unopened => exact Reason.not_tooDeep_here _ _
  | repeated => exact Reason.not_tooDeep_duplicate _
  | unclosed => exact Reason.not_tooDeep_here _ _

/-- No scalar begins with a blank or with the bracket of an object. -/
theorem scalar_stops_before (first : (ahead.dropWhile Text.isBlank).head? = some '\x7b') :
    ∃ stop, scalarRule.trace ask depths ahead = .stopped stop := by
  cases ahead with
  | nil => cases first
  | cons token ahead =>
    cases blank : Text.isBlank token with
    | true =>
      have other : ∀ mark ∈ ['n', 't', 'f', '-', '"'], Text.isBlank mark = false := forall_mem_of_all (by decide)
      exact scalarRule_stops ask depths ahead token (fun mark => absurd blank (by simp [other token mark]))
        (edge_of_isBlank blank).1
    | false =>
      rw [List.dropWhile_cons_of_neg (by simp [blank])] at first
      cases first
      exact scalarRule_stops ask depths ahead '\x7b' (by decide) (by decide)

theorem array_stops_before {gauge limit : Nat} (value : Parser Ref Json)
    (first : (ahead.dropWhile Text.isBlank).head? = some '\x7b') :
    ∃ stop, Rule.traceNested gauge "array" '[' limit ((arrayRule value).trace ask) depths ahead = .stopped stop := by
  have other : ahead.head? ≠ some '[' := by
    intro same
    obtain ⟨rest, rfl⟩ := List.head?_eq_some_iff.mp same
    cases first
  refine ⟨.here "array" ahead, ?_⟩
  simp only [Rule.traceNested, first]
  rw [if_neg (by simp)]
  exact trace_array_unopened ask _ value other

end Rules

/-! ### Refusals -/

/-- The rule is refused for its nesting exactly if the limit is reached and its bracket comes first past the blanks under
the cursor; the refusal shows where the blanks begin. -/
def Limited (options : Options) (input : Input) (gauges : Gauges) (label : String) (bracket : Char)
    (reply : Reply Json) : Prop :=
  ∀ failure : Failure, reply = .reject failure ∧ failure.reason.TooDeep ↔
    options.maxDepth ≤ (gauges.get 0).depth ∧ input.firstSolid? = some bracket ∧
      failure = ⟨label, .tooDeep options.maxDepth, input.snapshot⟩

def LimitedAhead (limit depth : Nat) (ahead : List Char) (label : String) (bracket : Char)
    (answer : Answer Json) : Prop :=
  ∀ stop : Stop, answer = .stopped stop ∧ stop.reason.TooDeep ↔
    limit ≤ depth ∧ (ahead.dropWhile Text.isBlank).head? = some bracket ∧ stop = ⟨label, .tooDeep limit, ahead⟩

theorem LimitedAhead.places {options : Options} {input : Input} {gauges : Gauges} {label : String} {bracket : Char}
    {answer : Answer Json} {reply : Reply Json}
    (limited : LimitedAhead options.maxDepth (gauges.get 0).depth input.ahead label bracket answer)
    (places : answer.Places input reply) : Limited options input gauges label bracket reply := by
  have here := Stop.snapshot_places label (.tooDeep options.maxDepth) input
  intro failure
  rw [Input.firstSolid?_eq]
  constructor
  · rintro ⟨rfl, deep⟩
    obtain ⟨stop, stopped, placed⟩ := places.of_reject
    obtain ⟨level, first, rfl⟩ := (limited stop).mp ⟨stopped, placed.reason ▸ deep⟩
    exact ⟨level, first, placed.unique here⟩
  · rintro ⟨level, first, rfl⟩
    obtain ⟨stopped, deep⟩ := (limited _).mpr ⟨level, first, rfl⟩
    rw [stopped] at places
    exact ⟨places.unique (.stopped here), deep⟩

/-- A container is limited if what it gives up for inside is another matter. -/
theorem limitedAhead_traceNested {gauge limit : Nat} {label : String} {bracket : Char}
    {body : Depths → List Char → Trace Json} {depths : Depths} {ahead : List Char}
    (inside : ∀ stop, (body (depths.deeper gauge) ahead).answer = .stopped stop → ¬stop.reason.TooDeep) :
    LimitedAhead limit (depths gauge) ahead label bracket
      (Rule.traceNested gauge label bracket limit body depths ahead).answer := by
  intro stop
  unfold Rule.traceNested
  by_cases refused : limit ≤ depths gauge ∧ (ahead.dropWhile Text.isBlank).head? = some bracket
  · rw [if_pos (by simpa using refused)]
    constructor
    · rintro ⟨same, -⟩
      exact ⟨refused.1, refused.2, (Answer.stopped.inj same).symm⟩
    · rintro ⟨-, -, rfl⟩
      exact ⟨rfl, limit, rfl⟩
  · rw [if_neg (by simpa using refused)]
    constructor
    · rintro ⟨stopped, deep⟩
      exact absurd deep (inside stop stopped)
    · rintro ⟨level, first, -⟩
      exact absurd ⟨level, first⟩ refused

section Grammars

variable {Ref : Type → Type} (ask : Ask Ref) (link : Ref Json) (gauge : Nat) (options : Options) (depths : Depths)
  (ahead : List Char)

theorem limited_array : LimitedAhead options.maxDepth (depths gauge) ahead "array" '['
    ((Grammar.ofLink link gauge options).array.trace ask depths ahead).answer :=
  limitedAhead_traceNested fun _ => not_tooDeep_of_array ask

theorem limited_object : LimitedAhead options.maxDepth (depths gauge) ahead "object" '\x7b'
    ((Grammar.ofLink link gauge options).object.trace ask depths ahead).answer :=
  limitedAhead_traceNested fun _ => not_tooDeep_of_object ask

/-- Where the bracket of an object comes first past the blanks, the alternatives before it stop. -/
theorem answer_alternatives_object (first : (ahead.dropWhile Text.isBlank).head? = some '\x7b') :
    ((Grammar.ofLink link gauge options).alternatives.trace ask depths ahead).answer =
      ((Grammar.ofLink link gauge options).object.trace ask depths ahead).answer := by
  obtain ⟨stop, scalar⟩ := scalar_stops_before ask first
  obtain ⟨stop', array⟩ := @array_stops_before _ ask depths _ gauge options.maxDepth (forward "value" link) first
  rw [trace_alternatives, scalar, array]
  rfl

/-- The failure of the alternatives is that of the object, which is tried last. -/
theorem limited_alternatives : LimitedAhead options.maxDepth (depths gauge) ahead "object" '\x7b'
    ((Grammar.ofLink link gauge options).alternatives.trace ask depths ahead).answer := by
  have object := limited_object ask link gauge options depths ahead
  intro stop
  constructor
  · rintro ⟨stopped, deep⟩
    rw [trace_alternatives] at stopped
    exact (object stop).mp ⟨(Trace.stopped_of_recover stopped).2, deep⟩
  · rintro ⟨level, first, same⟩
    rw [answer_alternatives_object ask link gauge options depths ahead first]
    exact (object stop).mpr ⟨level, first, same⟩

end Grammars

/-! ### Openings -/

section Openers

variable {Ref : Type → Type} {α : Type} (wiring : Wiring Ref) (input : Input) (gauges : Gauges)

def Accepts (parser : Parser Ref α) : Prop :=
  ∃ value rest, (parser.parse wiring input gauges).reply = .accept value rest

theorem accepts_iff (parser : Parser Ref α) : Accepts wiring input gauges parser ↔ ∃ value rest,
    (parser.trace (wiring.ask (wiring.budget input)) gauges.depths input.ahead).answer = .took value rest := by
  have places : (parser.trace (wiring.ask (wiring.budget input)) gauges.depths input.ahead).answer.Places input
      (parser.parse wiring input gauges).reply := (parser.parse_agrees wiring input gauges).reply
  constructor
  · rintro ⟨value, rest, accepted⟩
    rw [accepted] at places
    exact ⟨value, rest.ahead, places.of_accept.2⟩
  · rintro ⟨value, ahead, taken⟩
    rw [taken] at places
    obtain ⟨rest, accepted, -⟩ := places.of_took
    exact ⟨value, rest, accepted⟩

theorem took_token_iff (ask : Ask Ref) (expected : Char) (depths : Depths) (ahead : List Char) :
    (∃ char rest, ((token expected).trace ask depths ahead).answer = .took char rest) ↔
      ahead.head? = some expected := by
  constructor
  · rintro ⟨char, rest, taken⟩
    obtain ⟨after, rfl, -⟩ := took_of_token ask taken
    rfl
  · intro first
    obtain ⟨after, rfl⟩ := List.head?_eq_some_iff.mp first
    exact ⟨expected, after.dropWhile Text.isBlank, by rw [trace_token]; rfl⟩

theorem accepts_token (expected : Char) :
    Accepts wiring input gauges (token expected) ↔ ∃ inside, input.next? = some (expected, inside) := by
  rw [accepts_iff, took_token_iff]
  exact Input.head?_ahead

theorem accepts_spaces_token (expected : Char) :
    Accepts wiring input gauges (spaces.keepRight (token expected)) ↔ input.firstSolid? = some expected := by
  rw [accepts_iff, Input.firstSolid?_eq]
  simp only [trace_keepRight, trace_spaces, Trace.bind_took]
  exact took_token_iff _ expected _ _

end Openers

section Beyond

/-- With room left, a container runs one level deeper. -/
theorem trace_limited {Ref : Type → Type} (ask : Ask Ref) {gauge limit : Nat} {gauges : Gauges} (ahead : List Char)
    (below : (gauges.get gauge).depth < limit) (opener : Char) (container : Parser Ref Json) :
    (limited gauge limit opener container).trace ask gauges.depths ahead =
      container.trace ask (gauges.modify gauge Nesting.enter).depths ahead := by
  rw [Gauges.depths_enter]
  exact traceNested_of_below below

variable {input inside : Input} {token : Char}

theorem answer_token_open {Ref : Type → Type} (ask : Ask Ref) (depths : Depths)
    (opened : input.next? = some (token, inside)) :
    ((Json.token token).trace ask depths input.ahead).answer = .took token inside.pastBlanks.ahead := by
  rw [Input.ahead_of_next? opened, trace_token, ← Input.ahead_pastBlanks]
  rfl

theorem answer_spaces_token_open {Ref : Type → Type} (ask : Ask Ref) (depths : Depths)
    (opened : input.pastBlanks.next? = some (token, inside)) :
    ((spaces.keepRight (Json.token token)).trace ask depths input.ahead).answer =
      .took token inside.pastBlanks.ahead := by
  rw [trace_keepRight, trace_spaces, Trace.bind_took, ← Input.ahead_pastBlanks]
  exact answer_token_open ask depths opened

variable {α : Type} {options : Options} {budget : Nat} {gauges : Gauges} {reply : Reply Json}

/-- With room left and its opening past, a container goes on as its contents do from there. -/
theorem beyond_of_opened {begin closer : Parser Link Char} {inner : Parser Link α} {make : α → Json} {label : String}
    {opener char : Char} (below : (gauges.get 0).depth < options.maxDepth) (enough : input.ahead.length < budget)
    (leads : input.Leads inside)
    (opened : ∀ depths, (begin.trace ((Grammar.ofOptions options).wiring.ask budget) depths input.ahead).answer =
      .took char inside.pastBlanks.ahead)
    (places : ((limited 0 options.maxDepth opener (((between begin inner closer).map make).withLabel label)).trace
      ((Grammar.ofOptions options).wiring.ask budget) gauges.depths input.ahead).answer.Places input reply) :
    reply.Beyond inside := by
  let contents : Parser Link Json := ((inner.keepLeft closer).map make).withLabel label
  have same : ((((between begin inner closer).map make).withLabel label).trace
      ((Grammar.ofOptions options).wiring.ask budget) (gauges.modify 0 Nesting.enter).depths input.ahead).answer =
        (contents.trace ((Grammar.ofOptions options).wiring.ask budget) (gauges.modify 0 Nesting.enter).depths
          inside.pastBlanks.ahead).answer := by
    rw [trace_withLabel, trace_map, trace_between]
    unfold Trace.bind
    rw [opened]
    dsimp only
    rw [Trace.map, Trace.bind_after, Trace.relabel_after, Trace.answer_after]
    rw [trace_withLabel, trace_map, trace_keepLeft]
    rfl
  have sound := Grammar.sound_of_near options contents.rule (.inl (Nat.lt_of_le_of_lt
    (leads.trans inside.leads_pastBlanks).length_le enough)) (gauges.modify 0 Nesting.enter).depths
  have onward := (contents.rule.run_agrees ((Grammar.ofOptions options).wiring.follow_agrees budget) inside.pastBlanks
    (gauges.modify 0 Nesting.enter)).reply
  rw [trace_limited _ _ below, same] at places
  exact places.beyond onward leads inside.leads_pastBlanks sound

end Beyond

/-- How the rules of a grammar open from a cursor. An object opens past the blanks, and so does a value that is one. An
array opens with its bracket under the cursor, and behind blanks not at all. -/
structure Opening (grammar : Grammar Link) (input : Input) (gauges : Gauges) : Prop where
  object : ∀ inside, input.pastBlanks.next? = some ('\x7b', inside) →
    (grammar.object.parse grammar.wiring input gauges).reply.Beyond inside
  value : ∀ inside, input.pastBlanks.next? = some ('\x7b', inside) →
    (grammar.value.parse grammar.wiring input gauges).reply.Beyond inside
  array : ∀ inside, input.next? = some ('[', inside) →
    (grammar.array.parse grammar.wiring input gauges).reply.Beyond inside
  behind : (∀ inside, input.next? ≠ some ('[', inside)) →
    (grammar.array.parse grammar.wiring input gauges).reply = .reject (.here "array" input)

section Grammars

variable (options : Options) (input : Input) (gauges : Gauges)

theorem value_places : ((Grammar.ofLink Link.value 0 options).alternatives.trace
    ((Grammar.ofOptions options).wiring.ask ((Grammar.ofOptions options).wiring.budget input)) gauges.depths
      input.ahead).answer.Places input
        ((Grammar.ofOptions options).value.parse (Grammar.ofOptions options).wiring input gauges).reply := by
  have enough := (Grammar.ofOptions options).wiring.length_lt_budget input
  rw [← trace_value enough]
  exact ((Grammar.ofOptions options).value.parse_agrees (Grammar.ofOptions options).wiring input gauges).reply

theorem opening_of_below (below : (gauges.get 0).depth < options.maxDepth) :
    Opening (Grammar.ofOptions options) input gauges := by
  have enough := (Grammar.ofOptions options).wiring.length_lt_budget input
  have object := ((Grammar.ofOptions options).object.parse_agrees (Grammar.ofOptions options).wiring input gauges).reply
  have array := ((Grammar.ofOptions options).array.parse_agrees (Grammar.ofOptions options).wiring input gauges).reply
  have value := value_places options input gauges
  refine ⟨fun inside opened => ?_, fun inside opened => ?_, fun inside opened => ?_, fun unopened => ?_⟩
  · exact beyond_of_opened below enough (input.leads_pastBlanks.trans (.of_next? opened))
      (fun depths => answer_spaces_token_open _ depths opened) object
  · have first : (input.ahead.dropWhile Text.isBlank).head? = some '\x7b' := by
      rw [← Input.ahead_pastBlanks]
      exact Input.head?_ahead.mpr ⟨inside, opened⟩
    rw [answer_alternatives_object _ _ _ _ _ _ first] at value
    exact beyond_of_opened below enough (input.leads_pastBlanks.trans (.of_next? opened))
      (fun depths => answer_spaces_token_open _ depths opened) value
  · exact beyond_of_opened below enough (.of_next? opened) (fun depths => answer_token_open _ depths opened) array
  · have other : input.ahead.head? ≠ some '[' := by
      intro first
      obtain ⟨inside, taken⟩ := Input.head?_ahead.mp first
      exact unopened inside taken
    have stops : (Grammar.ofOptions options).array.trace
        ((Grammar.ofOptions options).wiring.ask ((Grammar.ofOptions options).wiring.budget input)) gauges.depths
          input.ahead = .stopped (.here "array" input.ahead) := by
      calc
        _ = (arrayRule (forward "value" Link.value)).trace _ (gauges.depths.deeper 0) input.ahead :=
          traceNested_of_below below
        _ = _ := trace_array_unopened _ _ _ other
    change ((Grammar.ofOptions options).array.trace _ _ _).answer.Places _ _ at array
    rw [stops] at array
    exact array.eq_reject (.here input)

end Grammars

/-- At the limit the rule of a container fails for its nesting if its bracket comes first past the blanks under the cursor,
and that of a value if this is the bracket of an object; and never else. The failure is where the blanks begin, and the
bracket stands there just if there are none. What is looked for is what the opening of an object accepts, but the opening
of an array accepts it only without blanks. So with room left, an object or a value that is one goes on beyond its
bracket, but an array behind blanks does not open. -/
theorem limit_before_blanks (options : Options) (input : Input) (gauges : Gauges) :
    let grammar := Grammar.ofOptions options
    (Limited options input gauges "array" '[' (grammar.array.parse grammar.wiring input gauges).reply ∧
      Limited options input gauges "object" '\x7b' (grammar.object.parse grammar.wiring input gauges).reply ∧
      Limited options input gauges "object" '\x7b' (grammar.value.parse grammar.wiring input gauges).reply) ∧
    (∀ bracket, (input.firstSolid? = some bracket ↔ ∃ inside, input.pastBlanks.next? = some (bracket, inside)) ∧
      ∀ inside, input.pastBlanks.next? = some (bracket, inside) →
        (input.pastBlanks.position = input.position ↔ input.next? = some (bracket, inside))) ∧
    (Accepts grammar.wiring input gauges (spaces.keepRight (token '\x7b')) ↔ input.firstSolid? = some '\x7b') ∧
    (Accepts grammar.wiring input gauges (token '[') ↔ ∃ inside, input.next? = some ('[', inside)) ∧
    ∀ higher, (gauges.get 0).depth < higher →
      Opening (Grammar.ofOptions { options with maxDepth := higher }) input gauges := by
  intro grammar
  have array := (grammar.array.parse_agrees grammar.wiring input gauges).reply
  have object := (grammar.object.parse_agrees grammar.wiring input gauges).reply
  refine ⟨⟨?_, ?_, ?_⟩, fun bracket => ⟨Input.firstSolid?_eq_some, fun inside => Input.pastBlanks_position⟩, ?_, ?_, ?_⟩
  · exact (limited_array _ Link.value 0 options gauges.depths input.ahead).places array
  · exact (limited_object _ Link.value 0 options gauges.depths input.ahead).places object
  · exact (limited_alternatives _ Link.value 0 options gauges.depths input.ahead).places
      (value_places options input gauges)
  · exact accepts_spaces_token grammar.wiring input gauges '\x7b'
  · exact accepts_token grammar.wiring input gauges '['
  · exact fun higher below => opening_of_below { options with maxDepth := higher } input gauges below

/-- Where no container may be open, an object behind two blanks is refused at the first of them, and so is an array that
does not open there under any limit. -/
theorem limit_shows_blank :
    let grammar := Grammar.ofOptions ⟨.lastWins, 0⟩
    let object := Input.ofText "  \x7b\x7d"
    let array := Input.ofText " []"
    (∃ failure, (grammar.object.parse grammar.wiring object []).reply = .reject failure ∧
      failure.message = "Nesting too deep, limit is 0" ∧ failure.position = ⟨0, 0⟩ ∧
      object.next?.map Prod.fst = some ' ') ∧
    (∃ failure, (grammar.array.parse grammar.wiring array []).reply = .reject failure ∧
      failure.message = "Nesting too deep, limit is 0" ∧ failure.position = ⟨0, 0⟩ ∧
      array.next?.map Prod.fst = some ' ') ∧
    ∃ failure, ((Grammar.ofOptions ⟨.lastWins, 9⟩).array.parse grammar.wiring array []).reply = .reject failure ∧
      failure.message = "Unexpected ' '" :=
  ⟨⟨_, rfl, rfl, rfl, rfl⟩, ⟨_, rfl, rfl, rfl, rfl⟩, _, rfl, rfl⟩

end Json

end Caret
