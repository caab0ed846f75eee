import Caret.Proofs.Trace

/-!
Traces only move forward, and some rules move for sure. A rule is guarded if it takes a token before it follows a
reference; where every reference leads to a guarded rule, the tokens ahead bound how deep references go, so a budget
above their number is never used up. More is known where references are ranked: if a reference is followed before a
token by those of a higher rank only, none leads back to itself before a token, and the budget of a run is never used up.
-/

namespace Caret

namespace Trace

variable {α β : Type} {ahead : List Char}

def Within (ahead : List Char) (trace : Trace α) : Prop :=
  ∀ value rest, trace.answer = .took value rest → rest <:+ ahead

def Sound (trace : Trace α) : Prop :=
  ∀ fault, trace.answer ≠ .broken fault

theorem took_of_bind {trace : Trace α} {next : α → List Char → Trace β} {value : β} {rest : List Char}
    (taken : (trace.bind next).answer = .took value rest) :
    ∃ first middle, trace.answer = .took first middle ∧ (next first middle).answer = .took value rest := by
  unfold bind at taken
  cases answer : trace.answer with
  | took first middle => exact ⟨first, middle, rfl, by simpa only [answer, answer_after] using taken⟩
  | stopped stop => simp [answer] at taken
  | broken fault => simp [answer] at taken

theorem took_of_recover {trace other : Trace α} {value : α} {rest : List Char}
    (taken : (trace.recover other).answer = .took value rest) :
    trace.answer = .took value rest ∨ (∃ first, trace.answer = .stopped first) ∧ other.answer = .took value rest := by
  unfold recover at taken
  split at taken
  · next first gaveUp => exact .inr ⟨⟨first, gaveUp⟩, taken⟩
  · exact .inl taken

theorem took_of_relabel {label : String} {trace : Trace α} {value : α} {rest : List Char}
    (taken : (trace.relabel label).answer = .took value rest) : trace.answer = .took value rest := by
  unfold relabel at taken
  split at taken
  · simp at taken
  · exact taken

theorem stopped_of_bind {trace : Trace α} {next : α → List Char → Trace β} {stop : Stop}
    (stopped : (trace.bind next).answer = .stopped stop) :
    trace.answer = .stopped stop ∨
      ∃ value rest, trace.answer = .took value rest ∧ (next value rest).answer = .stopped stop := by
  unfold bind at stopped
  cases answer : trace.answer with
  | took value rest => exact .inr ⟨value, rest, rfl, by simpa only [answer, answer_after] using stopped⟩
  | stopped other =>
    simp only [answer, Answer.stopped.injEq] at stopped
    exact .inl (by rw [stopped])
  | broken fault => simp [answer] at stopped

theorem stopped_of_map {trace : Trace α} {convert : α → β} {stop : Stop}
    (stopped : (trace.map convert).answer = .stopped stop) : trace.answer = .stopped stop := by
  rcases stopped_of_bind stopped with stopped | ⟨value, rest, -, stopped⟩
  · exact stopped
  · simp [took] at stopped

theorem stopped_of_recover {trace other : Trace α} {stop : Stop}
    (stopped : (trace.recover other).answer = .stopped stop) :
    (∃ first, trace.answer = .stopped first) ∧ other.answer = .stopped stop := by
  unfold recover at stopped
  split at stopped
  · next first gaveUp => exact ⟨⟨first, gaveUp⟩, stopped⟩
  · next unstopped => exact absurd stopped (unstopped stop)

theorem stopped_of_relabel {label : String} {trace : Trace α} {stop : Stop}
    (stopped : (trace.relabel label).answer = .stopped stop) :
    ∃ inner, trace.answer = .stopped inner ∧ stop = { inner with label } := by
  unfold relabel at stopped
  split at stopped
  · next inner gaveUp => exact ⟨inner, gaveUp, (Answer.stopped.inj stopped).symm⟩
  · next unstopped => exact absurd stopped (unstopped stop)

theorem Within.bind {trace : Trace α} {next : α → List Char → Trace β} (within : trace.Within ahead)
    (onward : ∀ value rest, trace.answer = .took value rest → (next value rest).Within rest) :
    (trace.bind next).Within ahead := by
  intro value rest taken
  obtain ⟨first, middle, front, back⟩ := took_of_bind taken
  exact (onward first middle front value rest back).trans (within first middle front)

theorem Within.recover {trace other : Trace α} (within : trace.Within ahead) (second : other.Within ahead) :
    (trace.recover other).Within ahead := by
  intro value rest taken
  rcases took_of_recover taken with taken | ⟨-, taken⟩
  · exact within value rest taken
  · exact second value rest taken

theorem within_took (value : α) (ahead : List Char) : (took value ahead).Within ahead := by
  intro other rest taken
  simp only [took, Answer.took.injEq] at taken
  exact taken.2 ▸ List.suffix_refl ahead

theorem within_stopped (stop : Stop) (ahead : List Char) : (stopped stop : Trace α).Within ahead := by
  intro value rest taken
  simp [stopped] at taken

theorem Within.map {trace : Trace α} (within : trace.Within ahead) (convert : α → β) :
    (trace.map convert).Within ahead :=
  within.bind fun _ rest _ => within_took _ rest

theorem within_many1 {label : String} {step : List Char → Trace α} (within : ∀ ahead, (step ahead).Within ahead)
    (ahead : List Char) : (many1 label step ahead).Within ahead := by
  induction size : ahead.length using Nat.strongRecOn generalizing ahead with
  | ind size ih =>
    subst size
    rw [many1_eq]
    refine (within ahead).bind fun value rest _ => ?_
    split
    · next shorter => exact ((ih _ shorter rest rfl).recover (within_took _ _)).map _
    · intro values more taken
      simp only [Answer.took.injEq] at taken
      exact taken.2 ▸ List.suffix_refl rest

theorem Sound.bind {trace : Trace α} {next : α → List Char → Trace β} (sound : trace.Sound)
    (onward : ∀ value rest, trace.answer = .took value rest → (next value rest).Sound) :
    (trace.bind next).Sound := by
  unfold Trace.bind
  cases answer : trace.answer with
  | took value rest => exact onward value rest answer
  | stopped stop => exact fun fault => by simp
  | broken fault => exact absurd answer (sound fault)

theorem Sound.recover {trace other : Trace α} (sound : trace.Sound) (second : other.Sound) :
    (trace.recover other).Sound := by
  unfold Trace.recover
  split
  · exact second
  · exact sound

theorem sound_took (value : α) (ahead : List Char) : (took value ahead).Sound :=
  fun fault => by simp [took]

theorem sound_stopped (stop : Stop) : (stopped stop : Trace α).Sound :=
  fun fault => by simp [stopped]

theorem sound_many1 {label : String} {step : List Char → Trace α} (ahead : List Char)
    (sound : ∀ rest, rest.length ≤ ahead.length → (step rest).Sound) : (many1 label step ahead).Sound := by
  induction size : ahead.length using Nat.strongRecOn generalizing ahead with
  | ind size ih =>
    subst size
    rw [many1_eq]
    refine (sound ahead (Nat.le_refl _)).bind fun value rest _ => ?_
    split
    · next shorter =>
      have further := ih _ shorter rest (fun later short => sound later (by omega)) rfl
      exact (further.recover (sound_took _ _)).bind fun _ _ _ => sound_took _ _
    · exact fun fault => by simp

end Trace

/-! ### Moving forward -/

section Forward

variable {Ref : Type → Type} {α β : Type}

def Ask.Within (ask : Ask Ref) : Prop :=
  ∀ {α : Type} (label : String) (ref : Ref α) (depths : Depths) (ahead : List Char),
    (ask label ref depths ahead).Within ahead

namespace Rule

theorem within_traceRefined (label : String) (start : List Char) (converted : Except String β) (ahead : List Char) :
    (traceRefined label start converted ahead).Within ahead := by
  cases converted with
  | ok value => exact Trace.within_took value ahead
  | error message => exact Trace.within_stopped _ ahead

theorem took_of_traceSatisfy {accepts : Char → Bool} {label : String} {ahead rest : List Char} {char : Char}
    (taken : (traceSatisfy accepts label ahead).answer = .took char rest) :
    accepts char = true ∧ ahead = char :: rest := by
  cases ahead with
  | nil => simp [traceSatisfy, Trace.stopped] at taken
  | cons token ahead =>
    simp only [traceSatisfy] at taken
    split at taken
    · next accepted =>
      cases taken
      exact ⟨accepted, rfl⟩
    · simp [Trace.stopped] at taken

theorem took_of_traceNested {body : Depths → List Char → Trace α} {gauge limit : Nat} {label : String} {opener : Char}
    {depths : Depths} {ahead rest : List Char} {value : α}
    (taken : (traceNested gauge label opener limit body depths ahead).answer = .took value rest) :
    (body (depths.deeper gauge) ahead).answer = .took value rest := by
  unfold traceNested at taken
  split at taken
  · simp at taken
  · exact taken

theorem within_trace {ask : Ask Ref} (within : Ask.Within ask) (rule : Rule Ref α) (depths : Depths)
    (ahead : List Char) : (rule.trace ask depths ahead).Within ahead := by
  induction rule generalizing depths ahead with
  | satisfy accepts label =>
    intro char rest taken
    obtain ⟨-, rfl⟩ := took_of_traceSatisfy taken
    exact List.suffix_cons char rest
  | finish label =>
    intro value rest taken
    simp only [trace, traceFinish] at taken
    split at taken
    · exact Trace.within_took _ _ _ _ taken
    · simp [Trace.stopped] at taken
  | always value => exact Trace.within_took value ahead
  | fail label message => exact Trace.within_stopped _ ahead
  | report log => exact Trace.within_took () ahead
  | bind rule next ihRule ihNext => exact (ihRule depths ahead).bind fun value rest _ => ihNext value depths rest
  | refine label rule convert ih =>
    exact (ih depths ahead).bind fun value rest _ => within_traceRefined label ahead (convert value) rest
  | orElse first second ihFirst ihSecond => exact (ihFirst depths ahead).recover (ihSecond depths ahead)
  | many1 label rule ih => exact Trace.within_many1 (fun ahead => ih depths ahead) ahead
  | relabel label rule ih => exact fun value rest taken => ih depths ahead value rest (Trace.took_of_relabel taken)
  | forward label ref => exact within label ref depths ahead
  | nested gauge label opener limit body ih =>
    exact fun value rest taken => ih _ ahead value rest (took_of_traceNested taken)

end Rule

theorem Wiring.within_ask (wiring : Wiring Ref) (budget : Nat) : Ask.Within (wiring.ask budget) := by
  induction budget with
  | zero => exact fun label ref depths ahead value rest taken => by simp [ask] at taken
  | succ budget ih =>
    intro α label ref depths ahead
    change (wiring.ask (budget + 1) label ref depths ahead).Within ahead
    rw [ask_succ]
    cases wiring.target ref with
    | none => exact fun value rest taken => by simp at taken
    | some rule => exact rule.within_trace ih depths ahead

end Forward

/-! ### Moving for sure -/

section Guards

variable {Ref : Type → Type} {α : Type}

namespace Rule

def Advances : {α : Type} → Rule Ref α → Prop
  | _, .satisfy _ _ => True
  | _, .finish _ => False
  | _, .always _ => False
  | _, .fail _ _ => True
  | _, .report _ => False
  | _, .bind rule next => rule.Advances ∨ ∀ value, (next value).Advances
  | _, .refine _ rule _ => rule.Advances
  | _, .orElse first second => first.Advances ∧ second.Advances
  | _, .many1 _ rule => rule.Advances
  | _, .relabel _ rule => rule.Advances
  | _, .forward _ _ => False
  | _, .nested _ _ _ _ body => body.Advances

def Guarded : {α : Type} → Rule Ref α → Prop
  | _, .satisfy _ _ => True
  | _, .finish _ => True
  | _, .always _ => True
  | _, .fail _ _ => True
  | _, .report _ => True
  | _, .bind rule next => rule.Guarded ∧ (rule.Advances ∨ ∀ value, (next value).Guarded)
  | _, .refine _ rule _ => rule.Guarded
  | _, .orElse first second => first.Guarded ∧ second.Guarded
  | _, .many1 _ rule => rule.Guarded
  | _, .relabel _ rule => rule.Guarded
  | _, .forward _ _ => False
  | _, .nested _ _ _ _ body => body.Guarded

end Rule

structure Ranks (Ref : Type → Type) where
  moves : {α : Type} → Ref α → Prop
  rank : {α : Type} → Ref α → Nat

def Ranks.none : Ranks Ref :=
  ⟨fun _ => False, fun _ => 0⟩

def Ranks.Holds (ranks : Ranks Ref) (ask : Ask Ref) : Prop :=
  ∀ {α : Type} (label : String) (ref : Ref α) (depths : Depths) (ahead : List Char) (value : α) (rest : List Char),
    ranks.moves ref → (ask label ref depths ahead).answer = .took value rest → rest.length < ahead.length

namespace Rule

def Moves (ranks : Ranks Ref) : {α : Type} → Rule Ref α → Prop
  | _, .satisfy _ _ => True
  | _, .finish _ => False
  | _, .always _ => False
  | _, .fail _ _ => True
  | _, .report _ => False
  | _, .bind rule next => rule.Moves ranks ∨ ∀ value, (next value).Moves ranks
  | _, .refine _ rule _ => rule.Moves ranks
  | _, .orElse first second => first.Moves ranks ∧ second.Moves ranks
  | _, .many1 _ rule => rule.Moves ranks
  | _, .relabel _ rule => rule.Moves ranks
  | _, .forward _ ref => ranks.moves ref
  | _, .nested _ _ _ _ body => body.Moves ranks

/-- No reference before a token, but those of a rank below a top. -/
def Below (ranks : Ranks Ref) (top : Nat) : {α : Type} → Rule Ref α → Prop
  | _, .satisfy _ _ => True
  | _, .finish _ => True
  | _, .always _ => True
  | _, .fail _ _ => True
  | _, .report _ => True
  | _, .bind rule next => rule.Below ranks top ∧ (rule.Moves ranks ∨ ∀ value, (next value).Below ranks top)
  | _, .refine _ rule _ => rule.Below ranks top
  | _, .orElse first second => first.Below ranks top ∧ second.Below ranks top
  | _, .many1 _ rule => rule.Below ranks top
  | _, .relabel _ rule => rule.Below ranks top
  | _, .forward _ ref => ranks.rank ref < top
  | _, .nested _ _ _ _ body => body.Below ranks top

theorem Advances.moves {rule : Rule Ref α} (advances : rule.Advances) (ranks : Ranks Ref) : rule.Moves ranks := by
  induction rule with
  | satisfy | fail => trivial
  | finish | always | report | forward => exact advances.elim
  | bind rule next ihRule ihNext =>
    exact Or.imp ihRule (fun advances value => ihNext value (advances value)) advances
  | orElse first second ihFirst ihSecond => exact ⟨ihFirst advances.1, ihSecond advances.2⟩
  | refine _ _ _ ih | many1 _ _ ih | relabel _ _ ih | nested _ _ _ _ _ ih => exact ih advances

theorem Guarded.below {rule : Rule Ref α} (guarded : rule.Guarded) (ranks : Ranks Ref) (top : Nat) :
    rule.Below ranks top := by
  induction rule with
  | satisfy | finish | always | fail | report => trivial
  | bind rule next ihRule ihNext =>
    exact ⟨ihRule guarded.1,
      guarded.2.imp (·.moves ranks) fun guarded value => ihNext value (guarded value)⟩
  | orElse first second ihFirst ihSecond => exact ⟨ihFirst guarded.1, ihSecond guarded.2⟩
  | forward => exact guarded.elim
  | refine _ _ _ ih | many1 _ _ ih | relabel _ _ ih | nested _ _ _ _ _ ih => exact ih guarded

theorem length_lt_of_moves {ask : Ask Ref} (within : Ask.Within ask) {ranks : Ranks Ref} (holds : ranks.Holds ask)
    (rule : Rule Ref α) (moves : rule.Moves ranks) (depths : Depths) (ahead : List Char) (value : α)
    (rest : List Char) (taken : (rule.trace ask depths ahead).answer = .took value rest) :
    rest.length < ahead.length := by
  induction rule generalizing depths ahead rest with
  | satisfy accepts label =>
    obtain ⟨-, rfl⟩ := took_of_traceSatisfy taken
    exact Nat.lt_succ_self rest.length
  | finish | always | report => exact moves.elim
  | fail label message => simp [trace, Trace.stopped] at taken
  | bind rule next ihRule ihNext =>
    obtain ⟨first, middle, front, back⟩ := Trace.took_of_bind taken
    have before := (rule.within_trace within depths ahead first middle front).length_le
    have after := ((next first).within_trace within depths middle value rest back).length_le
    rcases moves with moves | moves
    · exact Nat.lt_of_le_of_lt after (ihRule moves depths ahead first middle front)
    · exact Nat.lt_of_lt_of_le (ihNext first (moves first) depths middle value rest back) before
  | refine label rule convert ih =>
    obtain ⟨first, middle, front, back⟩ := Trace.took_of_bind taken
    have after := (within_traceRefined label ahead (convert first) middle value rest back).length_le
    exact Nat.lt_of_le_of_lt after (ih moves depths ahead first middle front)
  | orElse first second ihFirst ihSecond =>
    rcases Trace.took_of_recover taken with taken | ⟨-, taken⟩
    · exact ihFirst moves.1 depths ahead value rest taken
    · exact ihSecond moves.2 depths ahead value rest taken
  | many1 label rule ih =>
    simp only [trace, Trace.many1_eq] at taken
    obtain ⟨first, middle, front, back⟩ := Trace.took_of_bind taken
    have shorter := ih moves depths ahead first middle front
    simp only [if_pos shorter] at back
    have after := ((Trace.within_many1 (fun ahead => rule.within_trace within depths ahead) middle).recover
      (Trace.within_took [] middle)).map (first :: ·) value rest back
    exact Nat.lt_of_le_of_lt after.length_le shorter
  | relabel label rule ih => exact ih moves depths ahead value rest (Trace.took_of_relabel taken)
  | forward label ref => exact holds label ref depths ahead value rest moves taken
  | nested gauge label opener limit body ih => exact ih moves _ ahead value rest (took_of_traceNested taken)

theorem length_lt_of_advances {ask : Ask Ref} (within : Ask.Within ask) (rule : Rule Ref α) (advances : rule.Advances)
    (depths : Depths) (ahead : List Char) (value : α) (rest : List Char)
    (taken : (rule.trace ask depths ahead).answer = .took value rest) : rest.length < ahead.length := by
  have holds : Ranks.none.Holds ask := fun _ _ _ _ _ _ moves => moves.elim
  exact rule.length_lt_of_moves within holds (advances.moves .none) depths ahead value rest taken

/-- No more tokens ahead than a bound, and fewer where a reference may come first. -/
def Near (bound : Nat) (rule : Rule Ref α) (ahead : List Char) : Prop :=
  ahead.length < bound ∨ ahead.length ≤ bound ∧ rule.Guarded

theorem Near.shorter {bound : Nat} {rule : Rule Ref α} {ahead rest : List Char} (near : rule.Near bound ahead)
    (short : rest.length ≤ ahead.length) : rule.Near bound rest := by
  rcases near with near | near
  · exact .inl (Nat.lt_of_le_of_lt short near)
  · exact .inr ⟨Nat.le_trans short near.1, near.2⟩

theorem Near.next {ask : Ask Ref} (within : Ask.Within ask) {β : Type} {bound : Nat} {rule : Rule Ref α}
    {next : α → Rule Ref β} {depths : Depths} {ahead rest : List Char} {value : α}
    (near : (rule.bind next).Near bound ahead) (taken : (rule.trace ask depths ahead).answer = .took value rest) :
    (next value).Near bound rest := by
  have shorter := (rule.within_trace within depths ahead value rest taken).length_le
  rcases near with near | ⟨near, -, advances | guarded⟩
  · exact .inl (Nat.lt_of_le_of_lt shorter near)
  · exact .inl (Nat.lt_of_lt_of_le (rule.length_lt_of_advances within advances depths ahead value rest taken) near)
  · exact .inr ⟨Nat.le_trans shorter near, guarded value⟩

def Under (ranks : Ranks Ref) (bound top : Nat) (rule : Rule Ref α) (ahead : List Char) : Prop :=
  ahead.length < bound ∨ ahead.length ≤ bound ∧ rule.Below ranks top

theorem Under.shorter {ranks : Ranks Ref} {bound top : Nat} {rule : Rule Ref α} {ahead rest : List Char}
    (under : rule.Under ranks bound top ahead) (short : rest.length ≤ ahead.length) :
    rule.Under ranks bound top rest := by
  rcases under with under | under
  · exact .inl (Nat.lt_of_le_of_lt short under)
  · exact .inr ⟨Nat.le_trans short under.1, under.2⟩

theorem Under.next {ask : Ask Ref} (within : Ask.Within ask) {ranks : Ranks Ref} (holds : ranks.Holds ask) {β : Type}
    {bound top : Nat} {rule : Rule Ref α} {next : α → Rule Ref β} {depths : Depths} {ahead rest : List Char} {value : α}
    (under : (rule.bind next).Under ranks bound top ahead)
    (taken : (rule.trace ask depths ahead).answer = .took value rest) :
    (next value).Under ranks bound top rest := by
  have shorter := (rule.within_trace within depths ahead value rest taken).length_le
  rcases under with under | ⟨under, -, moves | below⟩
  · exact .inl (Nat.lt_of_le_of_lt shorter under)
  · have less := rule.length_lt_of_moves within holds moves depths ahead value rest taken
    exact .inl (Nat.lt_of_lt_of_le less under)
  · exact .inr ⟨Nat.le_trans shorter under, below value⟩

/-- A rule is sound as far as references are; one below a top as far as those below it. -/
theorem sound_trace_of_under {ask : Ask Ref} (within : Ask.Within ask) {ranks : Ranks Ref} (holds : ranks.Holds ask)
    {bound top : Nat}
    (sound : ∀ {α : Type} (label : String) (ref : Ref α) (depths : Depths) (ahead : List Char),
      ahead.length < bound ∨ ahead.length ≤ bound ∧ ranks.rank ref < top → (ask label ref depths ahead).Sound)
    (rule : Rule Ref α) (depths : Depths) (ahead : List Char)
    (under : rule.Under ranks bound top ahead) : (rule.trace ask depths ahead).Sound := by
  induction rule generalizing depths ahead with
  | satisfy accepts label =>
    simp only [trace]
    unfold traceSatisfy
    split
    · exact Trace.sound_stopped _
    · split
      · exact Trace.sound_took _ _
      · exact Trace.sound_stopped _
  | finish label =>
    simp only [trace, traceFinish]
    split
    · exact Trace.sound_took _ _
    · exact Trace.sound_stopped _
  | always value => exact Trace.sound_took value ahead
  | fail label message => exact Trace.sound_stopped _
  | report log => exact Trace.sound_took () ahead
  | bind rule next ihRule ihNext =>
    have first := ihRule depths ahead (under.imp_right fun under => ⟨under.1, under.2.1⟩)
    exact first.bind fun value rest taken => ihNext value depths rest (under.next within holds taken)
  | refine label rule convert ih =>
    refine (ih depths ahead under).bind fun value rest _ => ?_
    cases convert value with
    | ok value => exact Trace.sound_took value rest
    | error message => exact Trace.sound_stopped _
  | orElse first second ihFirst ihSecond =>
    exact (ihFirst depths ahead (under.imp_right fun under => ⟨under.1, under.2.1⟩)).recover
      (ihSecond depths ahead (under.imp_right fun under => ⟨under.1, under.2.2⟩))
  | many1 label rule ih =>
    exact Trace.sound_many1 ahead fun rest short => ih depths rest (under.shorter short)
  | relabel label rule ih =>
    simp only [trace, Trace.relabel]
    split
    · exact fun fault => by simp
    · exact ih depths ahead under
  | forward label ref => exact sound label ref depths ahead under
  | nested gauge label opener limit body ih =>
    simp only [trace, traceNested]
    split
    · exact fun fault => by simp
    · exact ih _ ahead under

/-- A rule is sound as far as references are; a guarded rule one token further. -/
theorem sound_trace {ask : Ask Ref} (within : Ask.Within ask) {bound : Nat}
    (sound : ∀ {α : Type} (label : String) (ref : Ref α) (depths : Depths) (ahead : List Char),
      ahead.length < bound → (ask label ref depths ahead).Sound)
    (rule : Rule Ref α) (depths : Depths) (ahead : List Char)
    (near : rule.Near bound ahead) : (rule.trace ask depths ahead).Sound := by
  have holds : Ranks.none.Holds ask := fun _ _ _ _ _ _ moves => moves.elim
  have under : rule.Under .none bound 0 ahead := near.imp_right fun near => ⟨near.1, near.2.below .none 0⟩
  refine rule.sound_trace_of_under within holds (fun label ref depths ahead allowed => ?_) depths ahead under
  rcases allowed with short | ⟨-, low⟩
  · exact sound label ref depths ahead short
  · exact absurd low (Nat.not_lt_zero _)

end Rule

def Wiring.Guarded (wiring : Wiring Ref) : Prop :=
  ∀ {α : Type} (ref : Ref α), ∃ rule, wiring.target ref = some rule ∧ rule.Guarded

theorem Wiring.Guarded.sound_ask {wiring : Wiring Ref} (guarded : wiring.Guarded) (budget : Nat) (label : String)
    (ref : Ref α) (depths : Depths) (ahead : List Char) (enough : ahead.length < budget) :
    (wiring.ask budget label ref depths ahead).Sound := by
  induction budget generalizing α label ref depths ahead with
  | zero => omega
  | succ budget ih =>
    obtain ⟨rule, wired, guard⟩ := guarded ref
    rw [ask_succ, wired]
    exact rule.sound_trace (wiring.within_ask budget)
      (fun label ref depths ahead short => ih label ref depths ahead short)
      depths ahead (.inr ⟨Nat.le_of_lt_succ enough, guard⟩)

/-- No reference leads back to itself before a token: every one leads to a rule that follows only lower ones before a
token, and that moves if the reference is to move. -/
structure Wiring.Grounded (wiring : Wiring Ref) (ranks : Ranks Ref) : Prop where
  ranked : ∀ {α : Type} (ref : Ref α), ranks.rank ref ≤ wiring.count
  leads : ∀ {α : Type} (ref : Ref α), ∃ rule, wiring.target ref = some rule ∧ rule.Below ranks (ranks.rank ref) ∧
    (ranks.moves ref → rule.Moves ranks)

namespace Wiring.Grounded

variable {wiring : Wiring Ref} {ranks : Ranks Ref}

theorem holds (grounded : wiring.Grounded ranks) (budget : Nat) : ranks.Holds (wiring.ask budget) := by
  induction budget with
  | zero => exact fun label ref depths ahead value rest moves taken => by simp [ask] at taken
  | succ budget ih =>
    intro α label ref depths ahead value rest moves taken
    obtain ⟨rule, wired, -, onward⟩ := grounded.leads ref
    change (wiring.ask (budget + 1) label ref depths ahead).answer = .took value rest at taken
    rw [ask_succ, wired] at taken
    exact rule.length_lt_of_moves (wiring.within_ask budget) ih (onward moves) depths ahead value rest taken

/-- A reference takes a budget of its rank, and of all ranks for each token ahead. -/
theorem sound_ask (grounded : wiring.Grounded ranks) (budget : Nat) (label : String) (ref : Ref α) (depths : Depths)
    (ahead : List Char) (enough : (wiring.count + 1) * ahead.length + ranks.rank ref < budget) :
    (wiring.ask budget label ref depths ahead).Sound := by
  induction budget generalizing α label ref depths ahead with
  | zero => omega
  | succ budget ih =>
    obtain ⟨rule, wired, below, -⟩ := grounded.leads ref
    rw [ask_succ, wired]
    refine rule.sound_trace_of_under (wiring.within_ask budget) (grounded.holds budget)
      (fun label other depths rest allowed => ih label other depths rest ?_) depths ahead (.inr ⟨Nat.le_refl _, below⟩)
    have ranked := grounded.ranked other
    rcases allowed with short | ⟨short, low⟩
    · have whole : (wiring.count + 1) * (rest.length + 1) ≤ (wiring.count + 1) * ahead.length :=
        Nat.mul_le_mul_left _ short
      rw [Nat.mul_succ] at whole
      omega
    · have part : (wiring.count + 1) * rest.length ≤ (wiring.count + 1) * ahead.length := Nat.mul_le_mul_left _ short
      omega

end Wiring.Grounded

end Guards

end Caret
