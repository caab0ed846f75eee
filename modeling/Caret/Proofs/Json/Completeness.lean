import Caret.Proofs.Json.Soundness

/-!
Words of the syntax are taken. A value is taken up to the blanks after it, whatever follows that cannot be more of a
number; so no alternative takes a word from a later one, and a list goes on as far as there are commas.
-/

namespace Caret.Json

open Caret.Parser Syntax

/-! ### What may follow -/

def Stopper (ahead : List Char) : Prop :=
  ∃ char rest, ahead = char :: rest ∧ char ∈ [',', ']', '\x7d']

theorem edge_of_isBlank {char : Char} (white : Text.isBlank char = true) :
    char.isDigit = false ∧ char ≠ '.' ∧ ¬Literal.Marks char := by
  have nodigit : char.isDigit = false := by
    cases digit : char.isDigit with
    | false => rfl
    | true =>
      simp only [Char.isDigit, Bool.and_eq_true, decide_eq_true_eq, UInt32.le_iff_toNat_le] at digit
      have bounds : '0'.val.toNat = 48 ∧ '9'.val.toNat = 57 := by decide
      have code : char.toNat = char.val.toNat := rfl
      simp only [Text.isBlank, Text.Ranges.has, Text.blanks, List.any_cons, List.any_nil, Bool.or_false,
        Bool.or_eq_true, Bool.and_eq_true, decide_eq_true_eq] at white
      omega
  have other : ∀ mark, Text.isBlank mark = false → char ≠ mark := fun _ => ne_of_accepts white
  exact ⟨nodigit, other '.' (by decide), not_or.mpr ⟨other 'e' (by decide), other 'E' (by decide)⟩⟩

theorem edge_of_blanks {blanks ahead : List Char} (blank : Blanks blanks) (edge : Literal.Edge ahead) :
    Literal.Edge (blanks ++ ahead) := by
  cases blanks with
  | nil => exact edge
  | cons first blanks =>
    intro char same
    obtain rfl : first = char := by simpa using same
    exact edge_of_isBlank (blank first List.mem_cons_self)

theorem Stopper.edge {ahead : List Char} (stopper : Stopper ahead) : Literal.Edge ahead := by
  obtain ⟨char, rest, rfl, known⟩ := stopper
  have all : ∀ char ∈ [',', ']', '\x7d'], char.isDigit = false ∧ char ≠ '.' ∧ ¬Literal.Marks char := by
    simp [Literal.Marks]
  intro first same
  cases same
  exact all char known

theorem Stopper.solid {ahead : List Char} (stopper : Stopper ahead) : Solid ahead := by
  obtain ⟨char, rest, rfl, known⟩ := stopper
  have all : ∀ char ∈ [',', ']', '\x7d'], Text.isBlank char = false := forall_mem_of_all (by decide)
  exact solid_cons (all char known) rest

theorem dropWhile_blanks {blanks ahead : List Char} (blank : Blanks blanks) (solid : Solid ahead) :
    (blanks ++ ahead).dropWhile Text.isBlank = ahead :=
  (cut_of_all blank solid).2

/-! ### Words do not begin with blanks -/

theorem solid_scalar {word : List Char} {value : Json} (scalar : Scalar word value) (ahead : List Char) :
    Solid (word ++ ahead) := by
  obtain ⟨first, rest, rfl, begins⟩ := scalar.head
  apply solid_cons
  cases blank : Text.isBlank first with
  | false => rfl
  | true =>
    rcases begins with known | digit
    · have all : ∀ char ∈ ['n', 't', 'f', '-', '"'], Text.isBlank char = false := forall_mem_of_all (by decide)
      exact absurd blank (by simp [all first known])
    · exact absurd digit (by simp [(edge_of_isBlank blank).1])

theorem solid_value {policy : DuplicateKeys} {room : Nat} {word : List Char} {value : Json}
    (spelled : Syntax.Value policy room word value) (ahead : List Char) : Solid (word ++ ahead) := by
  cases room with
  | zero => exact solid_scalar spelled ahead
  | succ room =>
    rcases spelled with scalar | container
    · exact solid_scalar scalar ahead
    · cases container with
      | array => exact solid_cons (by decide) _
      | object => exact solid_cons (by decide) _

/-! ### Before a closer -/

section Closing

variable {α : Type} {Element : List Char → α → Prop} {closer : Char} {word : List Char} {values : List α}
  (closes : closer ∈ [']', '\x7d'])

include closes

theorem stopper_more (more : More Element word values) (ahead : List Char) : Stopper (word ++ closer :: ahead) := by
  cases more with
  | nil => exact ⟨closer, ahead, rfl, List.mem_cons_of_mem _ closes⟩
  | cons => exact ⟨_, _, rfl, by decide⟩

theorem solid_listed (solid : ∀ word value ahead, Element word value → Solid (word ++ ahead))
    (listed : Listed Element word values) (ahead : List Char) : Solid (word ++ closer :: ahead) := by
  cases listed with
  | nil =>
    have stopper : Stopper (closer :: ahead) := ⟨closer, ahead, rfl, List.mem_cons_of_mem _ closes⟩
    exact stopper.solid
  | cons element more =>
    rw [List.append_assoc]
    exact solid _ _ _ element

end Closing

section Rules

variable {Ref : Type → Type} {α : Type} (ask : Ask Ref) {depths : Depths}

/-! ### Tokens and lists -/

theorem trace_token (expected : Char) (ahead : List Char) :
    (token expected).trace ask depths (expected :: ahead) = .took expected (ahead.dropWhile Text.isBlank) := by
  unfold token
  rw [trace_keepLeft, trace_char, Rule.traceSatisfy_cons, if_pos (beq_self_eq_true expected), Trace.bind_took,
    trace_spaces, Trace.map_took]

theorem trace_token_other {expected other : Char} (different : other ≠ expected) (ahead : List Char) :
    (token expected).trace ask depths (other :: ahead) = .stopped (.here expected.toString (other :: ahead)) := by
  unfold token
  rw [trace_keepLeft, trace_char, Rule.traceSatisfy_cons, if_neg (by simpa using different), Trace.bind_stopped]

section Lists

variable {Element : List Char → α → Prop} {element : Parser Ref α} {bound : Nat} (closer : Char) (ahead : List Char)
  (solid : ∀ word value ahead, Element word value → Solid (word ++ ahead))
  (takes : ∀ word value ahead, Element word value → word.length < bound → Stopper ahead →
    (element.trace ask depths (word ++ ahead)).answer = .took value ahead)
  (closes : closer ∈ [']', '\x7d'])

include solid takes closes

theorem answer_more {word : List Char} {values : List α} (more : More Element word values)
    (short : word.length < bound) :
    (Trace.many ((token ',').keepRight element).label (((token ',').keepRight element).trace ask depths)
      (word ++ closer :: ahead)).answer = .took values (closer :: ahead) := by
  induction more with
  | nil =>
    have other : closer ≠ ',' := fun same => absurd (same ▸ closes) (by decide)
    apply Trace.answer_many_of_stopped
    rw [List.nil_append, trace_keepRight, trace_token_other ask other, Trace.bind_stopped]
    rfl
  | @cons blanks word rest value values blank spelled more ih =>
    simp only [List.length_cons, List.length_append] at short
    have whole : ',' :: (blanks ++ word ++ rest) ++ closer :: ahead =
        ',' :: (blanks ++ (word ++ (rest ++ closer :: ahead))) := by simp
    have taken : (((token ',').keepRight element).trace ask depths
        (',' :: (blanks ++ (word ++ (rest ++ closer :: ahead))))).answer = .took value (rest ++ closer :: ahead) := by
      rw [trace_keepRight, trace_token, Trace.bind_took, dropWhile_blanks blank (solid _ _ _ spelled)]
      exact takes _ _ _ spelled (by omega) (stopper_more closes more ahead)
    rw [whole, Trace.answer_many taken (by simp; omega)]
    exact Trace.answer_map (ih (by omega)) _

theorem answer_sepBy {word : List Char} {values : List α} (listed : Listed Element word values)
    (stops : ∃ stop, (element.trace ask depths (closer :: ahead)).answer = .stopped stop)
    (short : word.length < bound) :
    ((element.sepBy (token ',')).trace ask depths (word ++ closer :: ahead)).answer =
      .took values (closer :: ahead) := by
  rw [trace_sepBy, trace_sepBy1]
  cases listed with
  | nil =>
    obtain ⟨stop, stopped⟩ := stops
    exact Trace.answer_recover (Trace.answer_bind_of_stopped stopped _) _
  | @cons word rest value values spelled more =>
    rw [List.length_append] at short
    have first := takes word value (rest ++ closer :: ahead) spelled (by omega) (stopper_more closes more ahead)
    have others := answer_more ask closer ahead solid takes closes more (by omega)
    rw [List.append_assoc]
    apply Trace.answer_recover_of_took
    rw [Trace.answer_bind first]
    exact Trace.answer_map others _

end Lists

end Rules

/-! ### Values -/

/-- Takes a value, and no more than blanks after it. -/
def Takes {α : Type} (value : α) (ahead : List Char) (trace : Trace α) : Prop :=
  ∃ rest, trace.answer = .took value rest ∧ rest.dropWhile Text.isBlank = ahead.dropWhile Text.isBlank

section Values

variable {Ref : Type → Type} {ask : Ask Ref} {gauge limit bound : Nat} {policy : DuplicateKeys} {depths : Depths}
  {ahead : List Char} {value : Parser Ref Json}

def Given (policy : DuplicateKeys) (gauge limit bound : Nat) (run : Depths → List Char → Trace Json) : Prop :=
  ∀ depths word value ahead, Syntax.Value policy (limit - depths gauge) word value → word.length < bound →
    Literal.Edge ahead → Takes value ahead (run depths (word ++ ahead))

variable (given : Given policy gauge limit bound (value.trace ask))

include given

theorem answer_item {word : List Char} {item : Json}
    (spaced : Spaced (Syntax.Value policy (limit - depths gauge)) word item) (short : word.length < bound)
    (stopper : Stopper ahead) :
    ((value.keepLeft spaces).trace ask depths (word ++ ahead)).answer = .took item ahead := by
  obtain ⟨spelled, blank⟩ := spaced
  rw [List.length_append] at short
  obtain ⟨rest, taken, same⟩ := given depths _ _ _ spelled (by omega) (edge_of_blanks blank stopper.edge)
  rw [dropWhile_blanks blank stopper.solid] at same
  rw [List.append_assoc, trace_keepLeft, Trace.answer_bind taken, trace_spaces, Trace.map_took, same]
  rfl

theorem answer_member {word : List Char} {member : String × Json}
    (is : Member (Syntax.Value policy (limit - depths gauge)) word member) (short : word.length < bound)
    (stopper : Stopper ahead) :
    ((((quotedString.keepLeft spaces).keepLeft (token ':')).andThen (value.keepLeft spaces)).trace ask depths
      (word ++ ahead)).answer = .took member ahead := by
  obtain @⟨name, before, after, word, last, text, item, named, blank, blank', spelled, blank''⟩ := is
  simp only [List.length_append, List.length_cons] at short
  have whole : name ++ before ++ ':' :: (after ++ (word ++ last)) ++ ahead =
      name ++ (before ++ ':' :: (after ++ (word ++ last ++ ahead))) := by simp
  have colon : Solid (':' :: (after ++ (word ++ last ++ ahead))) := solid_cons (by decide) _
  have front : Solid (word ++ last ++ ahead) := by
    rw [List.append_assoc]
    exact solid_value spelled _
  have taken := answer_item given (.mk spelled blank'') (by rw [List.length_append]; omega) stopper
  rw [whole, trace_andThen, trace_keepLeft, trace_keepLeft, trace_quotedString ask depths _ named, Trace.bind_took,
    trace_spaces, dropWhile_blanks blank colon, Trace.map_took, Trace.bind_took, trace_token, Trace.map_took,
    Trace.bind_took, dropWhile_blanks blank' front]
  exact Trace.answer_map taken _

omit given in
theorem answer_collected {members : Parser Ref (List (String × Json))} {found : List (String × Json)} {rest : List Char}
    (taken : (members.trace ask depths ahead).answer = .took found rest)
    (distinct : policy = .reject → (found.map Prod.fst).Nodup) :
    ((collected policy members).trace ask depths ahead).answer = .took (Members.collect found) rest := by
  cases policy with
  | lastWins =>
    rw [collected, trace_map, trace_reporting, ← object_lastWins]
    apply Trace.answer_map
    rw [Trace.answer_bind taken]
  | reject =>
    rw [collected, trace_tryMap, Trace.answer_bind taken, distinctMembers_of_nodup (distinct rfl)]
    rfl

theorem answer_array {blanks word : List Char} {items : List Json} (blank : Blanks blanks)
    (listed : Listed (Spaced (Syntax.Value policy (limit - depths gauge))) word items) (short : word.length < bound)
    (stops : ∃ stop, (value.trace ask depths (']' :: ahead)).answer = .stopped stop) :
    ((arrayRule value).trace ask depths ('[' :: (blanks ++ (word ++ ']' :: ahead)))).answer =
      .took (.array items) (ahead.dropWhile Text.isBlank) := by
  have spaced : ∀ word item ahead, Spaced (Syntax.Value policy (limit - depths gauge)) word item →
      Solid (word ++ ahead) := by
    intro word item ahead spaced
    obtain ⟨spelled, blank⟩ := spaced
    rw [List.append_assoc]
    exact solid_value spelled _
  have solid : Solid (word ++ ']' :: ahead) := solid_listed (by decide) spaced listed ahead
  obtain ⟨stop, stopped⟩ := stops
  have taken := answer_sepBy ask ']' ahead spaced
    (fun word item ahead spaced short stopper => answer_item given spaced short stopper) (by decide) listed
    ⟨stop, by rw [trace_keepLeft, Trace.answer_bind_of_stopped stopped]⟩ short
  simp only [arrayRule, trace_withLabel, trace_map, trace_between]
  apply Trace.answer_relabel
  apply Trace.answer_map
  rw [trace_token, Trace.bind_took, dropWhile_blanks blank solid, Trace.answer_bind taken, trace_token]
  rfl

theorem answer_object {blanks word : List Char} {members : List (String × Json)} (blank : Blanks blanks)
    (listed : Listed (Member (Syntax.Value policy (limit - depths gauge))) word members) (short : word.length < bound)
    (distinct : policy = .reject → (members.map Prod.fst).Nodup) :
    ((objectRule value policy).trace ask depths ('\x7b' :: (blanks ++ (word ++ '\x7d' :: ahead)))).answer =
      .took (.object (Members.collect members)) (ahead.dropWhile Text.isBlank) := by
  have named : ∀ word member ahead, Member (Syntax.Value policy (limit - depths gauge)) word member →
      Solid (word ++ ahead) := by
    intro word member ahead is
    obtain ⟨⟨body⟩, blank, blank', spelled, blank''⟩ := is
    exact solid_cons (by decide) _
  have solid : Solid (word ++ '\x7d' :: ahead) := solid_listed (by decide) named listed ahead
  have stops : ∃ stop, quotedString.trace ask depths ('\x7d' :: ahead) = .stopped stop := by
    have reads := reads_quotedString ask depths ('\x7d' :: ahead)
    generalize quotedString.trace ask depths ('\x7d' :: ahead) = trace at reads
    cases reads with
    | took front quoted =>
      obtain ⟨body⟩ := quoted
      simp at front
    | stopped stop => exact ⟨stop, rfl⟩
  obtain ⟨stop, stopped⟩ := stops
  have taken := answer_sepBy ask '\x7d' ahead named
    (fun word member ahead is short stopper => answer_member given is short stopper) (by decide) listed
    ⟨stop, by rw [trace_andThen, trace_keepLeft, trace_keepLeft, stopped]; rfl⟩ short
  have first : Solid ('\x7b' :: (blanks ++ (word ++ '\x7d' :: ahead))) := solid_cons (by decide) _
  simp only [objectRule, trace_withLabel, trace_map, trace_between]
  apply Trace.answer_relabel
  apply Trace.answer_map
  rw [trace_keepRight, trace_spaces, first.dropWhile, Trace.bind_took, trace_token, Trace.bind_took,
    dropWhile_blanks blank solid, Trace.answer_bind (answer_collected taken distinct), trace_token]
  rfl

end Values

/-! ### Alternatives -/

section Alternatives

variable {Ref : Type → Type} (ask : Ask Ref) {link : Ref Json} {gauge : Nat} {options : Options} {depths : Depths}
  {ahead : List Char}

theorem trace_alternatives :
    (Grammar.ofLink link gauge options).alternatives.trace ask depths ahead =
      ((scalarRule.trace ask depths ahead).recover
        (Rule.traceNested gauge "array" '[' options.maxDepth ((arrayRule (forward "value" link)).trace ask) depths
          ahead)).recover
        (Rule.traceNested gauge "object" '\x7b' options.maxDepth
          ((objectRule (forward "value" link) options.duplicateKeys).trace ask) depths ahead) := rfl

theorem traceNested_of_below {α : Type} {label : String} {opener : Char} {limit : Nat}
    {body : Depths → List Char → Trace α} (below : depths gauge < limit) :
    Rule.traceNested gauge label opener limit body depths ahead = body (depths.deeper gauge) ahead := by
  have room : ¬limit ≤ depths gauge := by omega
  simp [Rule.traceNested, room]

end Alternatives

section Stopping

variable {Ref : Type → Type} (ask : Ask Ref) (gauge : Nat) (depths : Depths) (ahead : List Char)

omit ask in
/-- What does not begin like a container goes to the body, at any depth. -/
theorem traceNested_of_other {α : Type} {label : String} {opener token : Char} {limit : Nat}
    {body : Depths → List Char → Trace α} (other : token ≠ opener) (solid : Text.isBlank token = false) :
    Rule.traceNested gauge label opener limit body depths (token :: ahead) =
      body (depths.deeper gauge) (token :: ahead) := by
  unfold Rule.traceNested
  rw [List.dropWhile_cons_of_neg (by simp [solid])]
  simp [other]

theorem trace_array_unopened {ahead : List Char} (value : Parser Ref Json) (other : ahead.head? ≠ some '[') :
    (arrayRule value).trace ask depths ahead = .stopped (.here "array" ahead) := by
  have unopened : (token '[').trace ask depths ahead = .stopped (.here "[" ahead) := by
    cases ahead with
    | nil => rfl
    | cons first ahead => exact trace_token_other ask (fun same => other (congrArg some same)) ahead
  rw [arrayRule, trace_withLabel, trace_map, trace_between, unopened, Trace.bind_stopped, Trace.map_stopped,
    Trace.relabel_stopped, Stop.relabel_here]

theorem array_stops (value : Parser Ref Json) (token : Char) (limit : Nat) (other : token ≠ '[')
    (solid : Text.isBlank token = false) :
    ∃ stop, Rule.traceNested gauge "array" '[' limit ((arrayRule value).trace ask) depths (token :: ahead) =
      .stopped stop := by
  rw [traceNested_of_other gauge depths ahead other solid]
  exact ⟨_, trace_array_unopened ask _ value fun same => other (Option.some.inj same)⟩

theorem object_stops (value : Parser Ref Json) (token : Char) (limit : Nat) (policy : DuplicateKeys)
    (other : token ≠ '\x7b') (solid : Text.isBlank token = false) :
    ∃ stop, Rule.traceNested gauge "object" '\x7b' limit ((objectRule value policy).trace ask) depths
      (token :: ahead) = .stopped stop := by
  have first : Solid (token :: ahead) := solid_cons solid ahead
  rw [traceNested_of_other gauge depths ahead other solid]
  simp only [objectRule, trace_withLabel, trace_map, trace_between]
  rw [trace_keepRight, trace_spaces, first.dropWhile, Trace.bind_took, trace_token_other ask other]
  exact ⟨_, rfl⟩

theorem alternatives_stops (link : Ref Json) (options : Options) :
    ∃ stop, (Grammar.ofLink link gauge options).alternatives.trace ask depths (']' :: ahead) = .stopped stop := by
  obtain ⟨first, scalar⟩ := scalarRule_stops ask depths ahead ']' (by decide) (by decide)
  obtain ⟨second, array⟩ := array_stops ask gauge depths ahead (forward "value" link) ']' options.maxDepth (by decide)
    (by decide)
  obtain ⟨third, object⟩ := object_stops ask gauge depths ahead (forward "value" link) ']' options.maxDepth
    options.duplicateKeys (by decide) (by decide)
  exact ⟨third, by rw [trace_alternatives, scalar, array, object]; rfl⟩

end Stopping

section Taking

variable {Ref : Type → Type} (ask : Ask Ref) {link : Ref Json} {gauge : Nat} {options : Options} {depths : Depths}
  {ahead : List Char}

theorem takes_scalar {word : List Char} {value : Json} (scalar : Scalar word value) (edge : Literal.Edge ahead) :
    Takes value ahead ((Grammar.ofLink link gauge options).alternatives.trace ask depths (word ++ ahead)) := by
  have taken : ((Grammar.ofLink link gauge options).alternatives.trace ask depths (word ++ ahead)).answer =
      .took value ahead := by
    rw [trace_alternatives, trace_scalarRule ask depths ahead scalar edge]
    rfl
  exact ⟨ahead, taken, rfl⟩

/-- Containers are taken by the alternatives if the values inside of them are taken. -/
theorem takes_container {bound room : Nat} {word : List Char} {value : Json}
    (given : Given options.duplicateKeys gauge options.maxDepth bound ((forward "value" link).trace ask))
    (stops : ∀ depths ahead, ∃ stop, ((forward "value" link).trace ask depths (']' :: ahead)).answer = .stopped stop)
    (level : options.maxDepth - depths gauge = room + 1)
    (container : Container (Syntax.Value options.duplicateKeys room) options.duplicateKeys word value)
    (short : word.length < bound + 2) :
    Takes value ahead ((Grammar.ofLink link gauge options).alternatives.trace ask depths (word ++ ahead)) := by
  have below : depths gauge < options.maxDepth := by omega
  have inner : options.maxDepth - depths.deeper gauge gauge = room := by
    rw [show depths.deeper gauge gauge = depths gauge + 1 from if_pos rfl]
    omega
  refine ⟨ahead.dropWhile Text.isBlank, ?_, (solid_dropWhile ahead).dropWhile⟩
  rw [trace_alternatives]
  cases container with
  | @array blanks word items blank listed =>
    simp only [List.length_cons, List.length_append, List.length_nil] at short
    have whole : '[' :: (blanks ++ word ++ [']']) ++ ahead = '[' :: (blanks ++ (word ++ ']' :: ahead)) := by simp
    obtain ⟨stop, scalar⟩ := scalarRule_stops ask depths (blanks ++ (word ++ ']' :: ahead)) '[' (by decide) (by decide)
    rw [whole, scalar, Trace.recover_stopped, traceNested_of_below below]
    apply Trace.answer_recover_of_took
    exact answer_array given blank (inner ▸ listed) (by omega) (stops _ ahead)
  | @object blanks word members object blank listed distinct gathers =>
    simp only [List.length_cons, List.length_append, List.length_nil] at short
    have whole : '\x7b' :: (blanks ++ word ++ ['\x7d']) ++ ahead =
        '\x7b' :: (blanks ++ (word ++ '\x7d' :: ahead)) := by simp
    obtain ⟨first, scalar⟩ := scalarRule_stops ask depths (blanks ++ (word ++ '\x7d' :: ahead)) '\x7b' (by decide)
      (by decide)
    obtain ⟨second, array⟩ := array_stops ask gauge depths (blanks ++ (word ++ '\x7d' :: ahead)) (forward "value" link)
      '\x7b' options.maxDepth (by decide) (by decide)
    rw [whole, scalar, Trace.recover_stopped, array, Trace.recover_stopped, traceNested_of_below below]
    rw [Members.gathers_iff.mp gathers]
    exact answer_object given blank (inner ▸ listed) (by omega) distinct

end Taking

/-! ### Documents -/

section Documents

variable {Ref : Type → Type} {wiring : Wiring Ref} {link : Ref Json} {gauge : Nat} {options : Options}
  (wired : wiring.target link = some (Grammar.ofLink link gauge options).alternatives.rule)

include wired

theorem forward_eq (budget : Nat) (depths : Depths) (ahead : List Char) :
    (forward "value" link).trace (wiring.ask (budget + 1)) depths ahead =
      (Grammar.ofLink link gauge options).alternatives.trace (wiring.ask budget) depths ahead := by
  show (wiring.ask (budget + 1)) "value" link depths ahead = _
  rw [Wiring.ask_succ, wired]
  rfl

theorem forward_stops (budget : Nat) (depths : Depths) (ahead : List Char) :
    ∃ stop, ((forward "value" link).trace (wiring.ask (budget + 1)) depths (']' :: ahead)).answer = .stopped stop := by
  obtain ⟨stop, stopped⟩ := alternatives_stops (wiring.ask budget) gauge depths ahead link options
  exact ⟨stop, by rw [forward_eq wired, stopped]; rfl⟩

/-- Values are taken by induction on how deep references go: each value inside a container is shorter than it is. -/
theorem given_value (budget : Nat) :
    Given options.duplicateKeys gauge options.maxDepth budget ((forward "value" link).trace (wiring.ask budget)) := by
  induction budget with
  | zero => exact fun depths word value ahead spelled short edge => by omega
  | succ budget ih =>
    intro depths word value ahead spelled short edge
    rw [forward_eq wired]
    cases level : options.maxDepth - depths gauge with
    | zero =>
      rw [level] at spelled
      exact takes_scalar _ spelled edge
    | succ room =>
      rw [level] at spelled
      rcases spelled with scalar | container
      · exact takes_scalar _ scalar edge
      · have two : 2 ≤ word.length := by
          cases container <;>
          · simp only [List.length_cons, List.length_append, List.length_nil]
            omega
        obtain ⟨less, rfl⟩ : ∃ less, budget = less + 1 := ⟨budget - 1, by omega⟩
        exact takes_container _ ih (forward_stops wired less) level container (by omega)

theorem answer_document {budget : Nat} {depths : Depths} {word : List Char} {value : Json} (level : depths gauge = 0)
    (document : Document options word value) (enough : word.length < budget) :
    ((Grammar.ofLink link gauge options).document.trace (wiring.ask budget) depths word).answer = .took value [] := by
  obtain @⟨before, word, after, value, blank, spelled, blank'⟩ := document
  simp only [List.length_append] at enough
  have solid := solid_value spelled after
  have edge := edge_of_blanks blank' (show Literal.Edge [] by simp [Literal.Edge])
  have finished := dropWhile_blanks blank' (show Solid [] by simp [Solid])
  rw [List.append_nil] at edge finished
  have room : Syntax.Value options.duplicateKeys (options.maxDepth - depths gauge) word value := by
    rw [level]
    exact spelled
  obtain ⟨rest, taken, same⟩ := given_value wired budget depths word value after room (by omega) edge
  have done : rest.dropWhile Text.isBlank = [] := same.trans finished
  show ((((spaces.keepRight (forward "value" link)).keepLeft spaces).keepLeft finish).trace _ depths _).answer = _
  rw [trace_keepLeft, trace_keepLeft, trace_keepRight, trace_spaces, Trace.bind_took, List.append_assoc,
    dropWhile_blanks blank solid]
  have kept : (((forward "value" link).trace (wiring.ask budget) depths (word ++ after)).bind fun value rest =>
      (spaces.trace (wiring.ask budget) depths rest).map fun _ => value).answer = .took value [] := by
    rw [Trace.answer_bind taken, trace_spaces, done]
    rfl
  rw [Trace.answer_bind kept]
  rfl

end Documents

end Caret.Json
