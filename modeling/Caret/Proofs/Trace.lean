import Caret.Parser.Basic

/-!
Runs by their tokens alone. A trace is what a rule comes to over a list of tokens: an answer, and notes of what the run
logs and records, in order. Depths are handed down and never back, since every run leaves them as it found them.
-/

namespace Caret

/-- A failure, with the tokens ahead of the place where it happened. -/
structure Stop where
  label : String
  reason : Reason
  ahead : List Char

def Stop.here (label : String) : List Char → Stop
  | [] => ⟨label, .noMoreInput, []⟩
  | token :: ahead => ⟨label, .unexpected token, token :: ahead⟩

inductive Answer (α : Type) where
  | took (value : α) (ahead : List Char)
  | stopped (stop : Stop)
  | broken (fault : Fault)

inductive Note where
  /-- A container that would have opened at the limit. -/
  | refused (gauge : Nat) (label : String) (limit : Nat) (ahead : List Char)
  | stalled (label : String) (ahead : List Char)
  | said (log : Log)

namespace Note

def refusal? (gauge : Nat) : Note → Option Stop
  | refused other label limit ahead => if other = gauge then some ⟨label, .tooDeep limit, ahead⟩ else none
  | _ => none

def firstRefusal (gauge : Nat) (notes : List Note) : Option Stop :=
  notes.findSome? (refusal? gauge)

@[simp] theorem firstRefusal_nil (gauge : Nat) : firstRefusal gauge [] = none := rfl

@[simp] theorem firstRefusal_append (gauge : Nat) (first second : List Note) :
    firstRefusal gauge (first ++ second) = (firstRefusal gauge first).or (firstRefusal gauge second) :=
  List.findSome?_append

@[simp] theorem firstRefusal_stalled (gauge : Nat) (label : String) (ahead : List Char) :
    firstRefusal gauge [.stalled label ahead] = none := rfl

@[simp] theorem firstRefusal_said (gauge : Nat) (log : Log) : firstRefusal gauge [.said log] = none := rfl

end Note

structure Trace (α : Type) where
  answer : Answer α
  notes : List Note

namespace Trace

variable {α β : Type}

def took (value : α) (ahead : List Char) : Trace α :=
  ⟨.took value ahead, []⟩

def stopped (stop : Stop) : Trace α :=
  ⟨.stopped stop, []⟩

def after (notes : List Note) (trace : Trace α) : Trace α :=
  { trace with notes := notes ++ trace.notes }

@[simp] theorem answer_after (notes : List Note) (trace : Trace α) : (trace.after notes).answer = trace.answer := rfl

def bind (trace : Trace α) (next : α → List Char → Trace β) : Trace β :=
  match trace.answer with
  | .took value ahead => (next value ahead).after trace.notes
  | .stopped stop => ⟨.stopped stop, trace.notes⟩
  | .broken fault => ⟨.broken fault, trace.notes⟩

def map (convert : α → β) (trace : Trace α) : Trace β :=
  trace.bind fun value ahead => took (convert value) ahead

theorem map_self {convert : α → α} (same : ∀ value, convert value = value) (trace : Trace α) :
    trace.map convert = trace := by
  obtain ⟨answer, notes⟩ := trace
  cases answer <;> simp [map, bind, took, after, same]

def recover (trace other : Trace α) : Trace α :=
  match trace.answer with
  | .stopped _ => other.after trace.notes
  | _ => trace

def relabel (label : String) (trace : Trace α) : Trace α :=
  match trace.answer with
  | .stopped stop => ⟨.stopped { stop with label }, trace.notes⟩
  | _ => trace

/-- Repeats as long as tokens are taken; what the step answers last is passed over, unless it is the first. -/
def many1 (label : String) (step : List Char → Trace α) (ahead : List Char) : Trace (List α) :=
  (step ahead).bind fun value rest =>
    if rest.length < ahead.length then ((many1 label step rest).recover (took [] rest)).map (value :: ·)
    else ⟨.took [value] rest, [.stalled label ahead]⟩
termination_by ahead.length

def many (label : String) (step : List Char → Trace α) (ahead : List Char) : Trace (List α) :=
  (many1 label step ahead).recover (took [] ahead)

theorem many1_eq (label : String) (step : List Char → Trace α) (ahead : List Char) :
    many1 label step ahead = (step ahead).bind fun value rest =>
      if rest.length < ahead.length then (many label step rest).map (value :: ·)
      else ⟨.took [value] rest, [.stalled label ahead]⟩ := by
  rw [many1]
  rfl

theorem many_answer_ne_stopped (label : String) (step : List Char → Trace α) (ahead : List Char) (stop : Stop) :
    (many label step ahead).answer ≠ .stopped stop := by
  unfold many recover
  split
  · simp [took]
  · next unstopped => exact unstopped stop

section Rounds

variable {label : String} {step : List Char → Trace α} {ahead rest : List Char} {value : α} {notes : List Note}

theorem many1_of_took (moved : step ahead = ⟨.took value rest, notes⟩) (shorter : rest.length < ahead.length) :
    many1 label step ahead = ((many label step rest).map (value :: ·)).after notes := by
  rw [many1_eq, moved]
  simp only [bind, if_pos shorter]

theorem many1_of_stalled (moved : step ahead = ⟨.took value rest, notes⟩) (stays : ¬rest.length < ahead.length) :
    many1 label step ahead = ⟨.took [value] rest, notes ++ [.stalled label ahead]⟩ := by
  rw [many1_eq, moved]
  simp only [bind, if_neg stays, after]

theorem many_of_took (moved : step ahead = ⟨.took value rest, notes⟩) (shorter : rest.length < ahead.length) :
    many label step ahead = ((many label step rest).map (value :: ·)).after notes := by
  rw [many, many1_of_took moved shorter]
  unfold recover
  split
  · next stop stops =>
    exfalso
    cases answer : (many label step rest).answer with
    | stopped other => exact many_answer_ne_stopped label step rest other answer
    | took values ahead => simp [map, bind, took, answer] at stops
    | broken fault => simp [map, bind, answer] at stops
  · rfl

theorem many_of_stopped {stop : Stop} (moved : step ahead = ⟨.stopped stop, notes⟩) :
    many label step ahead = ⟨.took [] ahead, notes⟩ := by
  rw [many, many1_eq, moved]
  simp [bind, recover, after, took]

end Rounds

end Trace

abbrev Depths := Nat → Nat

def Depths.deeper (gauge : Nat) (depths : Depths) : Depths :=
  fun other => if other = gauge then depths other + 1 else depths other

abbrev Ask (Ref : Type → Type) := {α : Type} → String → Ref α → Depths → List Char → Trace α

namespace Rule

variable {Ref : Type → Type} {α β : Type}

def traceSatisfy (accepts : Char → Bool) (label : String) : List Char → Trace Char
  | [] => .stopped (.here label [])
  | token :: ahead => if accepts token then .took token ahead else .stopped (.here label (token :: ahead))

def traceFinish (label : String) (ahead : List Char) : Trace Unit :=
  if ahead.isEmpty then .took () ahead else .stopped (.here label ahead)

def traceRefined (label : String) (start : List Char) : Except String β → List Char → Trace β
  | .ok value, ahead => .took value ahead
  | .error message, _ => .stopped ⟨label, .refused message, start⟩

def traceNested (gauge : Nat) (label : String) (opener : Char) (limit : Nat) (body : Depths → List Char → Trace α)
    (depths : Depths) (ahead : List Char) : Trace α :=
  if limit ≤ depths gauge && (ahead.dropWhile Text.isBlank).head? == some opener then
    ⟨.stopped ⟨label, .tooDeep limit, ahead⟩, [.refused gauge label limit ahead]⟩
  else body (depths.deeper gauge) ahead

def trace (ask : Ask Ref) : {α : Type} → Rule Ref α → Depths → List Char → Trace α
  | _, .satisfy accepts label, _, ahead => traceSatisfy accepts label ahead
  | _, .finish label, _, ahead => traceFinish label ahead
  | _, .always value, _, ahead => .took value ahead
  | _, .fail label message, _, ahead => .stopped ⟨label, .refused message, ahead⟩
  | _, .report log, _, ahead => ⟨.took () ahead, [.said log]⟩
  | _, .bind rule next, depths, ahead => (trace ask rule depths ahead).bind fun value => trace ask (next value) depths
  | _, .refine label rule convert, depths, ahead =>
    (trace ask rule depths ahead).bind fun value => traceRefined label ahead (convert value)
  | _, .orElse first second, depths, ahead => (trace ask first depths ahead).recover (trace ask second depths ahead)
  | _, .many1 label rule, depths, ahead => .many1 label (trace ask rule depths) ahead
  | _, .relabel label rule, depths, ahead => (trace ask rule depths ahead).relabel label
  | _, .forward label ref, depths, ahead => ask label ref depths ahead
  | _, .nested gauge label opener limit body, depths, ahead =>
    traceNested gauge label opener limit (trace ask body) depths ahead

end Rule

def Wiring.ask {Ref : Type → Type} (wiring : Wiring Ref) : Nat → Ask Ref
  | 0, _, label, _, _, _ => ⟨.broken (.endless label), []⟩
  | budget + 1, _, label, ref, depths, ahead =>
    match wiring.target ref with
    | none => ⟨.broken (.unwired label), []⟩
    | some rule => rule.trace (wiring.ask budget) depths ahead

theorem Wiring.ask_succ {Ref : Type → Type} {α : Type} (wiring : Wiring Ref) (budget : Nat) (label : String)
    (ref : Ref α) (depths : Depths) (ahead : List Char) : (wiring.ask (budget + 1)) label ref depths ahead =
      match wiring.target ref with
      | none => ⟨.broken (.unwired label), []⟩
      | some rule => rule.trace (wiring.ask budget) depths ahead := rfl

end Caret
