import Caret.Proofs.Agreement
import Caret.Proofs.Combinators
import Caret.Proofs.Guards

/-!
Runs over the same tokens. Where two cursors have the same tokens ahead, a parser takes as many of them and gives the
same value, or fails for the same reason after as many, whatever the texts they belong to. All that tells the runs apart
is the budget, which is paid for by the whole text; and a larger budget changes no answer but that of endless references.
-/

namespace Caret

/-! ### Asking further -/

section Extending

variable {Ref : Type → Type} {α β : Type} {excused : Fault → Prop}

def Trace.Clear (excused : Fault → Prop) (trace : Trace α) : Prop :=
  ∀ fault, trace.answer = .broken fault → ¬excused fault

/-- The second asks as the first, wherever the first does not come to an excused fault. -/
def Ask.Extends (excused : Fault → Prop) (less more : Ask Ref) : Prop :=
  ∀ {α : Type} (label : String) (ref : Ref α) (depths : Depths) (ahead : List Char),
    (less label ref depths ahead).Clear excused → more label ref depths ahead = less label ref depths ahead

namespace Trace

theorem Clear.of_bind {trace : Trace α} {next : α → List Char → Trace β} (clear : (trace.bind next).Clear excused) :
    trace.Clear excused := by
  intro fault broke
  exact clear fault (by simp only [bind, broke])

theorem Clear.onward {trace : Trace α} {next : α → List Char → Trace β} {value : α} {rest : List Char}
    (clear : (trace.bind next).Clear excused) (taken : trace.answer = .took value rest) :
    (next value rest).Clear excused := by
  intro fault broke
  exact clear fault ((answer_bind taken next).trans broke)

theorem bind_congr {trace : Trace α} {next other : α → List Char → Trace β}
    (same : ∀ value rest, trace.answer = .took value rest → other value rest = next value rest) :
    trace.bind other = trace.bind next := by
  unfold bind
  cases answer : trace.answer with
  | took value rest => simp only [same value rest answer]
  | stopped stop => rfl
  | broken fault => rfl

/-- Where the first way goes clear, the other way is the same. -/
theorem Clear.bind_eq {trace move : Trace α} {next other : α → List Char → Trace β}
    (clear : (trace.bind next).Clear excused) (same : trace.Clear excused → move = trace)
    (onward : ∀ value rest, (next value rest).Clear excused → other value rest = next value rest) :
    move.bind other = trace.bind next := by
  rw [same clear.of_bind]
  exact bind_congr fun value rest taken => onward value rest (clear.onward taken)

theorem Clear.recover_eq {trace move second other : Trace α} (clear : (trace.recover second).Clear excused)
    (same : trace.Clear excused → move = trace) (further : second.Clear excused → other = second) :
    move.recover other = trace.recover second := by
  have first : trace.Clear excused := by
    intro fault broke
    exact clear fault (by simp only [recover, broke])
  rw [same first]
  unfold recover at clear ⊢
  split
  · next stop stopped =>
    simp only [stopped] at clear
    rw [further clear]
  · rfl

theorem Clear.many1_eq {label : String} {step other : List Char → Trace α} {ahead : List Char}
    (clear : (many1 label step ahead).Clear excused)
    (same : ∀ ahead, (step ahead).Clear excused → other ahead = step ahead) :
    many1 label other ahead = many1 label step ahead := by
  induction size : ahead.length using Nat.strongRecOn generalizing ahead with
  | ind size ih =>
    subst size
    rw [Trace.many1_eq] at clear ⊢
    rw [Trace.many1_eq label step]
    refine clear.bind_eq (same ahead) fun value rest clear => ?_
    split at clear
    · next shorter =>
      rw [if_pos shorter, if_pos shorter]
      refine clear.bind_eq (fun clear => ?_) fun values last _ => rfl
      exact clear.recover_eq (fun clear => ih _ shorter clear rfl) fun _ => rfl
    · next still => rw [if_neg still, if_neg still]

end Trace

theorem Rule.trace_extends {less more : Ask Ref} (wider : Ask.Extends excused less more) (rule : Rule Ref α)
    (depths : Depths) (ahead : List Char) (clear : (rule.trace less depths ahead).Clear excused) :
    rule.trace more depths ahead = rule.trace less depths ahead := by
  induction rule generalizing depths ahead with
  | satisfy | finish | always | fail | report => rfl
  | bind rule next ihRule ihNext =>
    exact clear.bind_eq (ihRule depths ahead) fun value rest => ihNext value depths rest
  | refine label rule convert ih => exact clear.bind_eq (ih depths ahead) fun value rest _ => rfl
  | orElse first second ihFirst ihSecond => exact clear.recover_eq (ihFirst depths ahead) (ihSecond depths ahead)
  | many1 label rule ih => exact clear.many1_eq (ih depths)
  | relabel label rule ih =>
    have inner : (rule.trace less depths ahead).Clear excused := by
      intro fault broke
      exact clear fault (by simp only [trace, Trace.relabel, broke])
    simp only [trace, ih depths ahead inner]
  | forward label ref => exact wider label ref depths ahead clear
  | nested gauge label opener limit body ih =>
    simp only [trace, traceNested] at clear ⊢
    split at clear
    · next refused => rw [if_pos refused, if_pos refused]
    · next entered =>
      rw [if_neg entered, if_neg entered]
      exact ih _ ahead clear

end Extending

def Fault.Endless (fault : Fault) : Prop :=
  ∃ label, fault = .endless label

section Wirings

variable {Ref : Type → Type} {wiring further : Wiring Ref} {excused : Fault → Prop} {less more : Nat}

/-- A larger budget and more wires change nothing but what is excused. -/
theorem Wiring.ask_extends_of (endless : ∀ label, excused (.endless label))
    (kept : ∀ {α : Type} (ref : Ref α), further.target ref = wiring.target ref ∨
      wiring.target ref = none ∧ ∀ label, excused (.unwired label))
    (larger : less ≤ more) : Ask.Extends excused (wiring.ask less) (further.ask more) := by
  induction less generalizing more with
  | zero => exact fun label ref depths ahead clear => absurd (endless label) (clear (.endless label) rfl)
  | succ less ih =>
    obtain ⟨more, rfl⟩ : ∃ beyond, more = beyond + 1 := ⟨more - 1, by omega⟩
    intro α label ref depths ahead clear
    change further.ask (more + 1) label ref depths ahead = wiring.ask (less + 1) label ref depths ahead
    change (wiring.ask (less + 1) label ref depths ahead).Clear excused at clear
    rw [ask_succ] at clear ⊢
    rw [ask_succ]
    rcases kept ref with same | ⟨unwired, excuse⟩
    · rw [same]
      split
      · rfl
      · next rule wired =>
        simp only [wired] at clear
        exact rule.trace_extends (ih (Nat.le_of_succ_le_succ larger)) depths ahead clear
    · simp only [unwired] at clear
      exact absurd (excuse label) (clear (.unwired label) rfl)

/-- A larger budget changes nothing but endless references. -/
theorem Wiring.ask_extends (wiring : Wiring Ref) (larger : less ≤ more) :
    Ask.Extends Fault.Endless (wiring.ask less) (wiring.ask more) :=
  ask_extends_of (fun label => ⟨label, rfl⟩) (fun _ => .inl rfl) larger

end Wirings

/-! ### Replies over the same tokens -/

/-- The same reply, after as many tokens from one cursor as from another. -/
inductive Reply.Alike {α : Type} (input other : Input) : Reply α → Reply α → Prop
  | accept (value : α) (count : Nat) (inside : count ≤ input.ahead.length) :
    Alike input other (.accept value (input.advance count)) (.accept value (other.advance count))
  | reject (label : String) (reason : Reason) (count : Nat) (inside : count ≤ input.ahead.length) :
    Alike input other (.reject ⟨label, reason, (input.advance count).snapshot⟩)
      (.reject ⟨label, reason, (other.advance count).snapshot⟩)
  | broken (fault : Fault) : Alike input other (.broken fault) (.broken fault)

section Replies

variable {Ref : Type → Type} {α : Type} {input other : Input}

/-- Two replies to one answer are alike. -/
theorem Answer.Places.alike {answer : Answer α} {reply reply' : Reply α} (places : answer.Places input reply)
    (places' : answer.Places other reply') (same : input.ahead = other.ahead) : reply.Alike input other reply' := by
  cases places with
  | took leads rest =>
    cases places' with
    | took leads' rest' =>
      rw [leads.eq_advance, leads'.eq_advance, ← same, rest, rest']
      exact .accept _ _ (Nat.sub_le _ _)
  | @stopped stop failure places =>
    cases places' with
    | @stopped _ failure' places' =>
      obtain ⟨place, leads, rest, shot⟩ := places.place
      obtain ⟨place', leads', rest', shot'⟩ := places'.place
      obtain ⟨label, reason, snapshot⟩ := failure
      obtain ⟨label', reason', snapshot'⟩ := failure'
      obtain rfl : label = stop.label := places.label
      obtain rfl : reason = stop.reason := places.reason
      obtain rfl : label' = stop.label := places'.label
      obtain rfl : reason' = stop.reason := places'.reason
      obtain rfl : snapshot = place.snapshot := shot
      obtain rfl : snapshot' = place'.snapshot := shot'
      rw [leads.eq_advance, leads'.eq_advance, ← same, rest, rest']
      exact .reject _ _ _ (Nat.sub_le _ _)
  | broken =>
    cases places' with
    | broken => exact .broken _

theorem Answer.Places.eq_broken_iff {answer : Answer α} {reply : Reply α} (places : answer.Places input reply)
    {fault : Fault} : reply = .broken fault ↔ answer = .broken fault := by
  cases places <;> simp

/-- Two budgets that are both enough come to the same. -/
theorem Rule.trace_eq_of_clear {wiring : Wiring Ref} {budget budget' : Nat} {rule : Rule Ref α} {depths : Depths}
    {ahead : List Char} (clear : (rule.trace (wiring.ask budget) depths ahead).Clear Fault.Endless)
    (clear' : (rule.trace (wiring.ask budget') depths ahead).Clear Fault.Endless) :
    rule.trace (wiring.ask budget) depths ahead = rule.trace (wiring.ask budget') depths ahead := by
  rcases Nat.le_total budget budget' with larger | larger
  · exact (rule.trace_extends (wiring.ask_extends larger) depths ahead clear).symm
  · exact rule.trace_extends (wiring.ask_extends larger) depths ahead clear'

/-- The budget of a run is enough for every grounded grammar. -/
theorem Wiring.Grounded.sound_parse {wiring : Wiring Ref} {ranks : Ranks Ref} (grounded : wiring.Grounded ranks)
    (rule : Rule Ref α) (input : Input) (depths : Depths) :
    (rule.trace (wiring.ask (wiring.budget input)) depths input.ahead).Sound := by
  have under : rule.Under ranks (input.ahead.length + 1) 0 input.ahead := .inl (Nat.lt_succ_self _)
  refine rule.sound_trace_of_under (wiring.within_ask _) (grounded.holds _) ?_ depths input.ahead under
  intro β label ref depths rest allowed
  apply grounded.sound_ask
  have ranked := grounded.ranked ref
  have short : rest.length ≤ input.source.size := by
    have whole := input.length_ahead_le
    rcases allowed with short | ⟨-, low⟩
    · omega
    · exact absurd low (Nat.not_lt_zero _)
  calc
    (wiring.count + 1) * rest.length + ranks.rank ref <
        (wiring.count + 1) * rest.length + (wiring.count + 1) := by omega
    _ = (wiring.count + 1) * (rest.length + 1) := (Nat.mul_succ _ _).symm
    _ ≤ (wiring.count + 1) * (input.source.size + 1) := Nat.mul_le_mul_left _ (Nat.succ_le_succ short)

namespace Parser

variable {wiring : Wiring Ref} {parser : Parser Ref α} {gauges gauges' : Gauges}

theorem clear_of_reply
    (ends : ∀ label, (parser.parse wiring input gauges).reply ≠ .broken (.endless label)) :
    (parser.rule.trace (wiring.ask (wiring.budget input)) gauges.depths input.ahead).Clear Fault.Endless := by
  rintro fault broke ⟨label, rfl⟩
  exact ends label ((parser.parse_agrees wiring input gauges).reply.eq_broken_iff.mpr broke)

theorem alike_of_clear (same : input.ahead = other.ahead) (level : gauges.depths = gauges'.depths)
    (clear : (parser.rule.trace (wiring.ask (wiring.budget input)) gauges.depths input.ahead).Clear Fault.Endless)
    (clear' : (parser.rule.trace (wiring.ask (wiring.budget other)) gauges'.depths other.ahead).Clear Fault.Endless) :
    (parser.parse wiring input gauges).reply.Alike input other (parser.parse wiring other gauges').reply := by
  have places := (parser.parse_agrees wiring input gauges).reply
  have places' := (parser.parse_agrees wiring other gauges').reply
  rw [← level, ← same] at clear' places'
  rw [Rule.trace_eq_of_clear clear clear'] at places
  exact places.alike places' same

/-- Parsers cannot tell where they are. From two cursors with the same tokens ahead, and on the same depths, a parser
takes the same value after as many tokens or fails alike after as many: in every grammar without left recursion, where
it does come to a reply, and in any other where neither run leads back to itself without end. -/
theorem parse_alike (parser : Parser Ref α) (wiring : Wiring Ref) (same : input.ahead = other.ahead)
    (level : gauges.depths = gauges'.depths) :
    let reply := (parser.parse wiring input gauges).reply
    let reply' := (parser.parse wiring other gauges').reply
    (∀ ranks, wiring.Grounded ranks → reply.Alike input other reply' ∧ ∀ fault, reply ≠ .broken fault) ∧
      ((∀ label, reply ≠ .broken (.endless label)) → (∀ label, reply' ≠ .broken (.endless label)) →
        reply.Alike input other reply') := by
  intro reply reply'
  constructor
  · intro ranks grounded
    have sound := grounded.sound_parse parser.rule input gauges.depths
    have sound' := grounded.sound_parse parser.rule other gauges'.depths
    constructor
    · exact alike_of_clear same level (fun fault broke => absurd broke (sound fault))
        fun fault broke => absurd broke (sound' fault)
    · intro fault replied
      exact sound fault ((parser.parse_agrees wiring input gauges).reply.eq_broken_iff.mp replied)
  · intro ends ends'
    exact alike_of_clear same level (clear_of_reply ends) (clear_of_reply ends')

end Parser

end Replies

inductive Joined : Type → Type where
  | sum : Joined Nat
  | unit : Joined Nat

namespace Joined

open Caret.Parser

def unitParser : Parser Joined Nat :=
  ((char 'x').mapTo 1).orElse (between (char '(') (forward "sum" sum) (char ')'))

def sumParser : Parser Joined Nat :=
  ((forward "unit" unit).andThen ((char '+').keepRight (forward "sum" sum)).opt).map
    fun (first, rest) => first + rest.getD 0

def wiring : Wiring Joined :=
  ⟨fun
    | .sum => some sumParser.rule
    | .unit => some unitParser.rule, 2⟩

/-- A sum follows a unit before it takes a token, and both of them take one. -/
def ranks : Ranks Joined :=
  ⟨fun _ => True, fun
    | .sum => 1
    | .unit => 0⟩

theorem grounded : wiring.Grounded ranks := by
  constructor
  · intro α ref
    cases ref <;> decide
  · intro α ref
    cases ref with
    | sum =>
      have below : sumParser.rule.Below ranks 1 := ⟨⟨Nat.zero_lt_one, .inl trivial⟩, .inr fun _ => trivial⟩
      exact ⟨sumParser.rule, rfl, below, fun _ => .inl (.inl trivial)⟩
    | unit =>
      have guarded : unitParser.rule.Guarded := ⟨⟨trivial, .inl trivial⟩, guarded_between trivial trivial⟩
      have advances : unitParser.rule.Advances :=
        ⟨.inl trivial, advances_keepLeft (.inl (advances_keepRight (.inl trivial)))⟩
      exact ⟨unitParser.rule, rfl, guarded.below ranks 0, fun _ => advances.moves ranks⟩

end Joined

/-- A sum at the start of one text and on the second line of another; and a character beside references that lead to
themselves. -/
theorem parse_alike_sum :
    let input := Input.ofText "x+(x)"
    let other := (Input.ofText "no\nx+(x)").advance 3
    let endless : Wiring Joined := ⟨fun ref => some (.forward "again" ref), 2⟩
    (Joined.sumParser.parse Joined.wiring input []).reply.Alike input other
        (Joined.sumParser.parse Joined.wiring other []).reply ∧
      ((Parser.char 'x').parse endless input []).reply.Alike input other
        ((Parser.char 'x').parse endless other []).reply := by
  intro input other endless
  have same : input.ahead = other.ahead := by decide
  exact ⟨((Parser.parse_alike Joined.sumParser Joined.wiring same rfl).1 Joined.ranks Joined.grounded).1,
    (Parser.parse_alike (Parser.char 'x') endless same rfl).2 (fun label => nofun) fun label => nofun⟩

end Caret
