import Caret.Proofs.Trace
import Caret.Parser.Characters

/-!
What combined parsers come to, in terms of the traces of their parts. Parsers of characters come to the same over any
references: text is taken as far as it is there, and a repeated character as long as it is accepted.
-/

namespace Caret

namespace Trace

variable {α β γ : Type}

@[simp] theorem after_nil (trace : Trace α) : trace.after [] = trace := rfl

@[simp] theorem bind_took (value : α) (ahead : List Char) (next : α → List Char → Trace β) :
    (took value ahead).bind next = next value ahead := rfl

@[simp] theorem bind_stopped (stop : Stop) (next : α → List Char → Trace β) :
    (stopped stop : Trace α).bind next = stopped stop := rfl

@[simp] theorem map_took (value : α) (ahead : List Char) (convert : α → β) :
    (took value ahead).map convert = took (convert value) ahead := rfl

@[simp] theorem map_stopped (stop : Stop) (convert : α → β) :
    (stopped stop : Trace α).map convert = stopped stop := rfl

@[simp] theorem recover_took (value : α) (ahead : List Char) (other : Trace α) :
    (took value ahead).recover other = took value ahead := rfl

@[simp] theorem recover_stopped (stop : Stop) (other : Trace α) : (stopped stop).recover other = other := rfl

@[simp] theorem relabel_took (label : String) (value : α) (ahead : List Char) :
    (took value ahead).relabel label = took value ahead := rfl

@[simp] theorem relabel_stopped (label : String) (stop : Stop) :
    (stopped stop : Trace α).relabel label = stopped { stop with label } := rfl

theorem bind_after (notes : List Note) (trace : Trace α) (next : α → List Char → Trace β) :
    (trace.after notes).bind next = (trace.bind next).after notes := by
  obtain ⟨answer, more⟩ := trace
  cases answer <;> simp [bind, after]

theorem bind_assoc (trace : Trace α) (next : α → List Char → Trace β) (last : β → List Char → Trace γ) :
    (trace.bind next).bind last = trace.bind fun value ahead => (next value ahead).bind last := by
  obtain ⟨answer, notes⟩ := trace
  cases answer with
  | took value ahead => exact bind_after notes (next value ahead) last
  | stopped stop => rfl
  | broken fault => rfl

/-! ### Answers alone -/

section Answers

variable {trace : Trace α} {value : α} {rest : List Char} {stop : Stop}

theorem answer_bind (taken : trace.answer = .took value rest) (next : α → List Char → Trace β) :
    (trace.bind next).answer = (next value rest).answer := by
  simp only [bind, taken, answer_after]

theorem answer_map (taken : trace.answer = .took value rest) (convert : α → β) :
    (trace.map convert).answer = .took (convert value) rest :=
  answer_bind taken _

theorem answer_bind_of_stopped (stopped : trace.answer = .stopped stop) (next : α → List Char → Trace β) :
    (trace.bind next).answer = .stopped stop := by
  simp only [bind, stopped]

theorem answer_recover (stopped : trace.answer = .stopped stop) (other : Trace α) :
    (trace.recover other).answer = other.answer := by
  simp only [recover, stopped, answer_after]

theorem answer_recover_of_took (taken : trace.answer = .took value rest) (other : Trace α) :
    (trace.recover other).answer = .took value rest := by
  simp only [recover, taken]

theorem answer_relabel (taken : trace.answer = .took value rest) (label : String) :
    (trace.relabel label).answer = .took value rest := by
  simp only [relabel, taken]

theorem answer_many {name : String} {step : List Char → Trace α} {ahead : List Char}
    (taken : (step ahead).answer = .took value rest) (shorter : rest.length < ahead.length) :
    (many name step ahead).answer = ((many name step rest).map (value :: ·)).answer := by
  have moved : step ahead = ⟨.took value rest, (step ahead).notes⟩ := by rw [← taken]
  rw [many_of_took moved shorter, answer_after]

theorem answer_many_of_stopped {name : String} {step : List Char → Trace α} {ahead : List Char}
    (stopped : (step ahead).answer = .stopped stop) : (many name step ahead).answer = .took [] ahead := by
  have moved : step ahead = ⟨.stopped stop, (step ahead).notes⟩ := by rw [← stopped]
  rw [many_of_stopped moved]

end Answers

end Trace

namespace Parser

variable {Ref : Type → Type} {α β γ : Type}

def trace (ask : Ask Ref) (parser : Parser Ref α) : Depths → List Char → Trace α :=
  parser.rule.trace ask

variable (ask : Ask Ref) (parser first : Parser Ref α) (second : Parser Ref β) (depths : Depths) (ahead : List Char)

@[simp] theorem trace_satisfy (accepts : Char → Bool) (label : String) :
    (satisfy accepts label).trace ask depths ahead = Rule.traceSatisfy accepts label ahead := rfl

@[simp] theorem trace_map (convert : α → β) :
    (parser.map convert).trace ask depths ahead = (parser.trace ask depths ahead).map convert := rfl

@[simp] theorem trace_mapTo (value : β) :
    (parser.mapTo value).trace ask depths ahead = (parser.trace ask depths ahead).map fun _ => value := rfl

@[simp] theorem trace_tryMap (convert : α → Except String β) :
    (parser.tryMap convert).trace ask depths ahead = (parser.trace ask depths ahead).bind fun value =>
      Rule.traceRefined parser.label ahead (convert value) := rfl

@[simp] theorem trace_withLabel (label : String) :
    (parser.withLabel label).trace ask depths ahead = (parser.trace ask depths ahead).relabel label := rfl

@[simp] theorem trace_andThen :
    (first.andThen second).trace ask depths ahead = (first.trace ask depths ahead).bind fun value rest =>
      (second.trace ask depths rest).map fun other => (value, other) := rfl

@[simp] theorem trace_keepLeft :
    (first.keepLeft second).trace ask depths ahead = (first.trace ask depths ahead).bind fun value rest =>
      (second.trace ask depths rest).map fun _ => value := by
  simp only [keepLeft, trace_map, trace_andThen, Trace.map, Trace.bind_assoc, Trace.bind_took]

@[simp] theorem trace_keepRight :
    (first.keepRight second).trace ask depths ahead = (first.trace ask depths ahead).bind fun _ rest =>
      second.trace ask depths rest := by
  simp only [keepRight, trace_map, trace_andThen, Trace.map, Trace.bind_assoc, Trace.bind_took]
  congr 1
  funext value rest
  exact Trace.map_self (fun _ => rfl) _

@[simp] theorem trace_between (opener : Parser Ref γ) :
    (between opener parser second).trace ask depths ahead = (opener.trace ask depths ahead).bind fun _ rest =>
      (parser.trace ask depths rest).bind fun value rest => (second.trace ask depths rest).map fun _ => value := by
  simp only [between, trace_keepLeft, trace_keepRight, Trace.bind_assoc]

@[simp] theorem trace_orElse (other : Parser Ref α) :
    (first.orElse other).trace ask depths ahead =
      (first.trace ask depths ahead).recover (other.trace ask depths ahead) := rfl

@[simp] theorem trace_opt :
    parser.opt.trace ask depths ahead =
      ((parser.trace ask depths ahead).map some).recover (.took none ahead) := rfl

@[simp] theorem trace_many1 :
    parser.many1.trace ask depths ahead = .many1 parser.label (parser.trace ask depths) ahead := rfl

@[simp] theorem trace_many :
    parser.many.trace ask depths ahead = .many parser.label (parser.trace ask depths) ahead := rfl

@[simp] theorem trace_sepBy1 :
    (parser.sepBy1 second).trace ask depths ahead = (parser.trace ask depths ahead).bind fun head rest =>
      (Trace.many (second.keepRight parser).label ((second.keepRight parser).trace ask depths) rest).map (head :: ·) :=
  rfl

@[simp] theorem trace_sepBy :
    (parser.sepBy second).trace ask depths ahead =
      ((parser.sepBy1 second).trace ask depths ahead).recover (.took [] ahead) := rfl

@[simp] theorem trace_reporting (events : α → Log) :
    (parser.reporting events).trace ask depths ahead = (parser.trace ask depths ahead).bind fun value rest =>
      ⟨.took value rest, [.said (events value)]⟩ := rfl

@[simp] theorem trace_sequence_nil :
    (sequence ([] : List (Parser Ref α))).trace ask depths ahead = .took [] ahead := rfl

theorem trace_sequenceFrom (parsers : List (Parser Ref α)) (taken : List α) :
    (sequenceFrom taken parsers).trace ask depths ahead =
      ((sequence parsers).trace ask depths ahead).map (taken.reverse ++ ·) := by
  induction parsers generalizing taken ahead with
  | nil => simp [sequenceFrom, Rule.trace]
  | cons parser parsers ih =>
    change (parser.trace ask depths ahead).bind
      (fun value rest => (sequenceFrom (value :: taken) parsers).trace ask depths rest) =
        ((parser.trace ask depths ahead).bind
          fun value rest => (sequenceFrom [value] parsers).trace ask depths rest).map (taken.reverse ++ ·)
    simp only [ih, Trace.map, Trace.bind_assoc, Trace.bind_took, List.reverse_cons, List.reverse_nil, List.nil_append,
      List.append_assoc]

@[simp] theorem trace_sequence_cons (parsers : List (Parser Ref α)) :
    (sequence (parser :: parsers)).trace ask depths ahead = (parser.trace ask depths ahead).bind fun value rest =>
      ((sequence parsers).trace ask depths rest).map (value :: ·) := by
  change (parser.trace ask depths ahead).bind
    (fun value rest => (sequenceFrom [value] parsers).trace ask depths rest) = _
  simp only [trace_sequenceFrom, List.reverse_cons, List.reverse_nil, List.nil_append, List.cons_append]

theorem trace_choice (parsers : List (Parser Ref α)) :
    (choice first parsers).trace ask depths ahead =
      parsers.foldl (fun trace parser => trace.recover (parser.trace ask depths ahead))
        (first.trace ask depths ahead) := by
  induction parsers generalizing first with
  | nil => rfl
  | cons parser parsers ih => exact ih (first.orElse parser)

end Parser

/-! ### Characters -/

/-- A character at the front that is accepted, and what is ahead after it. -/
theorem Rule.traceSatisfy_cons (accepts : Char → Bool) (label : String) (token : Char) (ahead : List Char) :
    traceSatisfy accepts label (token :: ahead) =
      if accepts token then .took token ahead else .stopped (.here label (token :: ahead)) := rfl

theorem Trace.many_satisfy (accepts : Char → Bool) (name label : String) (ahead : List Char) :
    many name (Rule.traceSatisfy accepts label) ahead = took (ahead.takeWhile accepts) (ahead.dropWhile accepts) := by
  induction ahead with
  | nil => exact many_of_stopped rfl
  | cons token ahead ih =>
    cases accepted : accepts token with
    | false =>
      have stopped : Rule.traceSatisfy accepts label (token :: ahead) = .stopped (.here label (token :: ahead)) := by
        simp [Rule.traceSatisfy, accepted]
      rw [many_of_stopped stopped, List.takeWhile_cons_of_neg (by simp [accepted]),
        List.dropWhile_cons_of_neg (by simp [accepted])]
      rfl
    | true =>
      have taken : Rule.traceSatisfy accepts label (token :: ahead) = .took token ahead := by
        simp [Rule.traceSatisfy, accepted]
      rw [many_of_took taken (by simp), ih, List.takeWhile_cons_of_pos accepted, List.dropWhile_cons_of_pos accepted]
      rfl

theorem Trace.many1_satisfy (accepts : Char → Bool) (name label : String) (ahead : List Char) :
    many1 name (Rule.traceSatisfy accepts label) ahead =
      if ahead.takeWhile accepts = [] then stopped (.here label ahead)
      else took (ahead.takeWhile accepts) (ahead.dropWhile accepts) := by
  rw [many1_eq]
  cases ahead with
  | nil => rfl
  | cons token ahead =>
    rw [Rule.traceSatisfy_cons]
    cases accepted : accepts token with
    | false => simp [accepted]
    | true => simp [accepted, many_satisfy]

/-- What holds of every one of a few things can be decided, one after the other. -/
theorem forall_mem_of_all {α : Type} {holds : α → Prop} [DecidablePred holds] {things : List α}
    (all : things.all (fun thing => decide (holds thing)) = true) : ∀ thing ∈ things, holds thing := by
  intro thing member
  exact of_decide_eq_true (List.all_eq_true.mp all thing member)

theorem ne_of_accepts {accepts : Char → Bool} {char other : Char} (inside : accepts char = true)
    (outside : accepts other = false) : char ≠ other := by
  intro same
  rw [same, outside] at inside
  exact Bool.false_ne_true inside

/-- A word of accepted characters is all that is taken, if the next token is not accepted. -/
theorem cut_of_all {accepts : Char → Bool} {word ahead : List Char} (all : ∀ char ∈ word, accepts char = true)
    (edge : ∀ char ∈ ahead.head?, accepts char = false) :
    (word ++ ahead).takeWhile accepts = word ∧ (word ++ ahead).dropWhile accepts = ahead := by
  rw [List.takeWhile_append_of_pos all, List.dropWhile_append_of_pos all]
  cases ahead with
  | nil => simp
  | cons token ahead => simp [edge token rfl]

/-- What is ahead after the longest front that tokens have in common with a word. -/
def afterCommon : List Char → List Char → List Char
  | [], ahead => ahead
  | _ :: _, [] => []
  | char :: word, token :: ahead => if token = char then afterCommon word ahead else token :: ahead

namespace Parser

variable {Ref : Type → Type} (ask : Ask Ref) (depths : Depths) (ahead : List Char)

@[simp] theorem trace_char (expected : Char) :
    (char expected).trace ask depths ahead = Rule.traceSatisfy (· == expected) expected.toString ahead := rfl

@[simp] theorem trace_spaces :
    spaces.trace ask depths ahead = .took (ahead.takeWhile Text.isBlank) (ahead.dropWhile Text.isBlank) :=
  Trace.many_satisfy _ _ _ _

theorem trace_chars (word : List Char) :
    (word <+: ahead → (sequence (word.map char)).trace ask depths ahead = .took word (ahead.drop word.length)) ∧
      (¬word <+: ahead → ∃ label, (sequence (word.map char)).trace ask depths ahead =
        .stopped (.here label (afterCommon word ahead))) := by
  induction word generalizing ahead with
  | nil => simp
  | cons char word ih =>
    cases ahead with
    | nil => exact ⟨by simp, fun _ => ⟨_, rfl⟩⟩
    | cons token ahead =>
      obtain ⟨taken, missed⟩ := ih ahead
      by_cases same : token = char
      · subst same
        simp only [List.map_cons, trace_sequence_cons, trace_char, Rule.traceSatisfy, beq_self_eq_true, if_true,
          Trace.bind_took, List.cons_prefix_cons, true_and, afterCommon, List.length_cons, List.drop_succ_cons]
        refine ⟨fun front => by rw [taken front]; rfl, fun other => ?_⟩
        obtain ⟨label, stopped⟩ := missed other
        exact ⟨label, by rw [stopped]; rfl⟩
      · have different : (token == char) = false := by simpa using same
        simp only [List.map_cons, trace_sequence_cons, trace_char, Rule.traceSatisfy, different, Bool.false_eq_true,
          if_false, Trace.bind_stopped, List.cons_prefix_cons, Ne.symm same, false_and, false_implies, not_false_eq_true,
          true_implies, true_and, afterCommon, if_neg same]
        exact ⟨_, rfl⟩

theorem Stop.relabel_here (label other : String) (ahead : List Char) :
    { Stop.here other ahead with label } = Stop.here label ahead := by
  cases ahead <;> rfl

/-- Text is taken if it is a front of the tokens, and else fails after what the two have in common. -/
theorem trace_text (expected : String) :
    (text expected).trace ask depths ahead =
      if expected.toList <+: ahead then .took expected (ahead.drop expected.toList.length)
      else .stopped (.here expected (afterCommon expected.toList ahead)) := by
  obtain ⟨taken, missed⟩ := trace_chars ask depths ahead expected.toList
  unfold text
  rw [trace_withLabel, trace_map]
  split
  · next front => rw [taken front, Trace.map_took, Trace.relabel_took, String.ofList_toList]
  · next other =>
    obtain ⟨label, stopped⟩ := missed other
    rw [stopped, Trace.map_stopped, Trace.relabel_stopped, Stop.relabel_here]

end Parser

/-! ### Reading words -/

namespace Trace

variable {α β : Type} {ahead : List Char}

inductive Reads (Word : List Char → α → Prop) (ahead : List Char) : Trace α → Prop
  | took {word rest : List Char} {value : α} (front : word ++ rest = ahead) (spelled : Word word value) :
    Reads Word ahead (.took value rest)
  | stopped (stop : Stop) : Reads Word ahead (.stopped stop)

namespace Reads

variable {Word : List Char → α → Prop} {Other : List Char → β → Prop} {trace : Trace α}

theorem bind (reads : trace.Reads Word ahead) {next : α → List Char → Trace β}
    (onward : ∀ word value rest, Word word value →
      (next value rest).Reads (fun more other => Other (word ++ more) other) rest) :
    (trace.bind next).Reads Other ahead := by
  cases reads with
  | @took word rest value front spelled =>
    have second := onward word value rest spelled
    rw [bind_took]
    generalize next value rest = trace at second
    cases second with
    | @took more last other back further =>
      exact .took (by rw [List.append_assoc, back, front]) further
    | stopped stop => exact .stopped stop
  | stopped stop => exact .stopped stop

theorem map (reads : trace.Reads Word ahead) {convert : α → β}
    (onward : ∀ word value, Word word value → Other word (convert value)) : (trace.map convert).Reads Other ahead :=
  reads.bind fun word value rest spelled => .took (List.nil_append rest) (by simpa using onward word value spelled)

theorem mono {Other : List Char → α → Prop} (reads : trace.Reads Word ahead)
    (onward : ∀ word value, Word word value → Other word value) : trace.Reads Other ahead := by
  cases reads with
  | took front spelled => exact .took front (onward _ _ spelled)
  | stopped stop => exact .stopped stop

theorem recover {other : Trace α} (reads : trace.Reads Word ahead) (second : other.Reads Word ahead) :
    (trace.recover other).Reads Word ahead := by
  cases reads with
  | took front spelled => exact .took front spelled
  | stopped stop => exact second

theorem relabel (reads : trace.Reads Word ahead) (label : String) : (trace.relabel label).Reads Word ahead := by
  cases reads with
  | took front spelled => exact .took front spelled
  | stopped stop => exact .stopped _

theorem many {Words : List Char → List α → Prop} {step : List Char → Trace α} (name : String)
    (reads : ∀ ahead, (step ahead).Reads Word ahead) (solid : ∀ word value, Word word value → word ≠ [])
    (none : Words [] [])
    (cons : ∀ word value more values, Word word value → Words more values → Words (word ++ more) (value :: values))
    (ahead : List Char) : (Trace.many name step ahead).Reads Words ahead := by
  induction size : ahead.length using Nat.strongRecOn generalizing ahead with
  | ind size ih =>
    subst size
    have first := reads ahead
    generalize moved : step ahead = trace at first
    cases first with
    | @took word rest value front spelled =>
      have longer := List.length_pos_iff.mpr (solid word value spelled)
      have shorter : rest.length < ahead.length := by
        rw [← front, List.length_append]
        omega
      have others := ih _ shorter rest rfl
      rw [many_of_took moved shorter, after_nil]
      generalize Trace.many name step rest = trace at others
      cases others with
      | @took more last values back further =>
        exact .took (by rw [List.append_assoc, back, front]) (cons word value more values spelled further)
      | stopped stop => exact .stopped stop
    | stopped stop =>
      rw [many_of_stopped moved]
      exact .took (List.nil_append ahead) none

end Reads

theorem reads_satisfy (accepts : Char → Bool) (label : String) (ahead : List Char) :
    (Rule.traceSatisfy accepts label ahead).Reads (fun word char => word = [char] ∧ accepts char = true) ahead := by
  cases ahead with
  | nil => exact .stopped _
  | cons token ahead =>
    rw [Rule.traceSatisfy_cons]
    split
    · next accepted => exact .took (List.singleton_append) ⟨rfl, accepted⟩
    · exact .stopped _

end Trace

namespace Parser

variable {Ref : Type → Type} {α : Type} (ask : Ask Ref) (depths : Depths) (ahead : List Char)

theorem reads_text (expected : String) :
    ((text expected).trace ask depths ahead).Reads (fun word found => word = expected.toList ∧ found = expected)
      ahead := by
  rw [trace_text]
  split
  · next front => exact .took (List.prefix_iff_eq_append.mp front) ⟨rfl, rfl⟩
  · exact .stopped _

theorem reads_char (expected : Char) :
    ((char expected).trace ask depths ahead).Reads (fun word found => word = [expected] ∧ found = expected) ahead := by
  apply (Trace.reads_satisfy _ _ ahead).mono
  intro word found taken
  obtain ⟨same, accepted⟩ := taken
  have equal : found = expected := by simpa using accepted
  exact ⟨by rw [same, equal], equal⟩

/-- A fixed text that stands for a value. -/
theorem reads_mapTo {Word : List Char → α → Prop} {expected : String} {value : α}
    (spelled : Word expected.toList value) :
    (((text expected).mapTo value).trace ask depths ahead).Reads Word ahead := by
  rw [trace_mapTo]
  apply (reads_text ask depths ahead expected).map
  intro word found taken
  rw [taken.1]
  exact spelled

theorem reads_choice {Word : List Char → α → Prop} {first : Parser Ref α} {others : List (Parser Ref α)}
    (reads : ∀ parser ∈ first :: others, (parser.trace ask depths ahead).Reads Word ahead) :
    ((choice first others).trace ask depths ahead).Reads Word ahead := by
  induction others generalizing first with
  | nil => exact reads first (List.mem_singleton_self first)
  | cons parser others ih =>
    show ((choice (first.orElse parser) others).trace ask depths ahead).Reads Word ahead
    apply ih
    intro other member
    rcases List.mem_cons.mp member with rfl | later
    · exact (reads first (by simp)).recover (reads parser (by simp))
    · exact reads other (by simp [later])

end Parser

end Caret
