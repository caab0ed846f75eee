import Caret.Proofs.Endings
import Caret.Proofs.Integers
import Caret.Proofs.Json.Completeness
import Caret.Sum

/-!
Sums as they are written. Between the numbers and operators of a sum stand blanks, line ends among them; only these are
touched when a text is cut into lines, so the tokens of a sum are a sum again, of the same numbers and operators. A sum
is read to its end and comes to its exact value, worked out from left to right over all integers, unless the value leaves
the range of words after some of the steps.
-/

namespace Caret

namespace Text

/-- What comes before a line feed is apart from it, but for a carriage return. -/
theorem unified_append {first second : List Char}
    (apart : first.getLast? = some '\r' → second.head? ≠ some '\n') :
    unified (first ++ second) = unified first ++ unified second := by
  fun_induction unified first with
  | case1 => rfl
  | case2 rest ih =>
    have onward : rest.getLast? = some '\r' → second.head? ≠ some '\n' := by
      cases rest with
      | nil => simp
      | cons next rest => simpa using apart
    rw [List.cons_append, List.cons_append, unified, ih onward, List.cons_append]
  | case3 char rest alone ih =>
    have onward : rest.getLast? = some '\r' → second.head? ≠ some '\n' := by
      cases rest with
      | nil => simp
      | cons next rest => simpa using apart
    have first : char = '\r' → (rest ++ second).head? ≠ some '\n' := by
      intro same
      cases rest with
      | nil => exact apart (by simp [same])
      | cons next rest => exact fun found => alone rest same (by simpa using found)
    rw [List.cons_append, unified_cons first, ih onward, List.cons_append]

/-- The line feed that ends the last line makes up for a carriage return that is trimmed before it. -/
theorem unified_trimReturn (chars : List Char) :
    unified (Source.trimReturn chars) ++ ['\n'] = unified (chars ++ ['\n']) := by
  by_cases last : chars.getLast? = some '\r'
  · obtain ⟨front, rfl⟩ := List.getLast?_eq_some_iff.mp last
    rw [Source.trimReturn_append_return, List.append_assoc, List.singleton_append, unified_append (by simp)]
    rfl
  · rw [Source.trimReturn_of_last last, unified_append fun found => absurd found last]
    rfl

theorem mem_of_unified {char : Char} {chars : List Char} (among : char ∈ unified chars) : char ∈ chars := by
  fun_induction unified chars with
  | case1 => exact among
  | case2 rest ih =>
    rcases List.mem_cons.mp among with rfl | later
    · simp
    · simp [ih later]
  | case3 first rest alone ih =>
    rcases List.mem_cons.mp among with rfl | later
    · simp
    · simp [ih later]

end Text

theorem Parser.reply_run {Ref : Type → Type} {α : Type} (wiring : Wiring Ref) (parser : Parser Ref α) (text : String)
    (gauges : Gauges) :
    (parser.run wiring text gauges).reply = (parser.parse wiring (Input.ofText text) gauges).reply := rfl

namespace Sum

open Caret.Parser Json Json.Syntax

/-! ### Written sums -/

def Gap := { chars : List Char // Blanks chars }

structure Term where
  operator : Operator
  before : Gap
  number : Int64
  after : Gap

structure Written where
  first : Int64
  after : Gap
  terms : List Term

def Operator.char : Operator → Char
  | add => '+'
  | subtract => '-'

def Term.step (term : Term) : Operator × Int64 :=
  (term.operator, term.number)

def Term.chars (term : Term) : List Char :=
  term.operator.char :: (term.before.val ++ ((toString term.number).toList ++ term.after.val))

namespace Written

def chars (sum : Written) : List Char :=
  (toString sum.first).toList ++ (sum.after.val ++ sum.terms.flatMap Term.chars)

def text (sum : Written) : String :=
  String.ofList sum.chars

def steps (sum : Written) : List (Operator × Int64) :=
  sum.terms.map Term.step

end Written

/-! ### Exact values -/

def Operator.exact : Operator → Int → Int → Int
  | add, sum, number => sum + number
  | subtract, sum, number => sum - number

def exact (first : Int64) (steps : List (Operator × Int64)) : Int :=
  steps.foldl (fun sum next => next.1.exact sum next.2.toInt) first.toInt

def InRange (value : Int) : Prop :=
  -2 ^ 63 ≤ value ∧ value < 2 ^ 63

theorem inRange_toInt (word : Int64) : InRange word.toInt :=
  ⟨word.le_toInt, word.toInt_lt⟩

theorem step_eq (sum : Int64) (next : Operator × Int64) :
    step sum next = toWord? (next.1.exact sum.toInt next.2.toInt) := by
  obtain ⟨operator, number⟩ := next
  cases operator <;> rfl

theorem step_eq_none {sum : Int64} {next : Operator × Int64} :
    step sum next = none ↔ ¬InRange (exact sum [next]) := by
  rw [step_eq]
  exact toWord?_eq_none

theorem exact_cons {sum after : Int64} {next : Operator × Int64} (stepped : step sum next = some after)
    (steps : List (Operator × Int64)) : exact sum (next :: steps) = exact after steps := by
  rw [step_eq, toWord?_eq_some] at stepped
  rw [exact, List.foldl_cons, ← stepped, exact]

/-- By induction on the steps: what a step comes to in the range of words is its exact value, so the rest goes on from
there. -/
theorem total_eq_some {first sum : Int64} {steps : List (Operator × Int64)} (ended : total first steps = some sum) :
    sum.toInt = exact first steps ∧ ∀ front, front <+: steps → InRange (exact first front) := by
  induction steps generalizing first with
  | nil =>
    cases ended
    refine ⟨rfl, ?_⟩
    rintro front within
    rw [List.prefix_nil.mp within]
    exact inRange_toInt _
  | cons next steps ih =>
    obtain ⟨after, stepped, onward⟩ : ∃ after, step first next = some after ∧ total after steps = some sum := by
      simpa [total, List.foldlM_cons, Option.bind_eq_some_iff] using ended
    obtain ⟨same, inside⟩ := ih onward
    refine ⟨by rw [same, exact_cons stepped], ?_⟩
    intro front within
    cases front with
    | nil => exact inRange_toInt first
    | cons other front =>
      obtain ⟨rfl, further⟩ := List.cons_prefix_cons.mp within
      rw [exact_cons stepped]
      exact inside front further

theorem total_eq_none {first : Int64} {steps : List (Operator × Int64)} (refused : total first steps = none) :
    ∃ front, front <+: steps ∧ ¬InRange (exact first front) := by
  induction steps generalizing first with
  | nil => cases refused
  | cons next steps ih =>
    cases stepped : step first next with
    | none => exact ⟨[next], by simp, step_eq_none.mp stepped⟩
    | some after =>
      have onward : total after steps = none := by simpa [total, List.foldlM_cons, stepped] using refused
      obtain ⟨front, within, outside⟩ := ih onward
      exact ⟨next :: front, List.cons_prefix_cons.mpr ⟨rfl, within⟩, by rwa [exact_cons stepped]⟩

/-! ### The tokens of a written sum -/

theorem solid_number (number : Int64) (rest : List Char) : Solid ((toString number).toList ++ rest) := by
  obtain ⟨first, more, written⟩ : ∃ first more, (toString number).toList = first :: more := by
    obtain ⟨negative, digits, written, some, -⟩ := exists_toString number
    exact List.exists_cons_of_ne_nil (by rw [written]; exact List.append_ne_nil_of_right_ne_nil _ some)
  rw [written]
  refine solid_cons ?_ (more ++ rest)
  rcases bare_toString number (by rw [written]; exact List.mem_cons_self) with rfl | digit
  · decide
  · cases blank : Text.isBlank first with
    | false => rfl
    | true => exact absurd digit (by simp [edge_of_isBlank blank])

def Onward (rest : List Char) : Prop :=
  ∀ char ∈ rest.head?, char.isDigit = false ∧ Text.isBlank char = false

theorem Onward.solid {rest : List Char} (onward : Onward rest) : Solid rest :=
  fun char found => (onward char found).2

theorem onward_terms (terms : List Term) : Onward (terms.flatMap Term.chars) := by
  cases terms with
  | nil => nofun
  | cons term terms =>
    rintro char found
    cases found
    cases term.operator <;> decide

theorem unified_number (number : Int64) (rest : List Char) :
    Text.unified ((toString number).toList ++ rest) = (toString number).toList ++ Text.unified rest := by
  have lacks : '\r' ∉ (toString number).toList := by
    intro among
    rcases bare_toString number among with same | same <;> exact absurd same (by decide)
  rw [Text.unified_append fun last => absurd (List.mem_of_getLast? last) lacks, Text.unified_of_bare lacks]

theorem unified_operator (operator : Operator) (rest : List Char) :
    Text.unified (operator.char :: rest) = operator.char :: Text.unified rest := by
  refine Text.unified_cons fun same => absurd same ?_
  cases operator <;> decide

/-- Blanks are cut at line feeds by themselves, since what comes after them is no line feed. -/
theorem exists_unified_gap (gap : Gap) {rest : List Char} (solid : Solid rest) :
    ∃ other : Gap, Text.unified (gap.val ++ rest) = other.val ++ Text.unified rest := by
  refine ⟨⟨Text.unified gap.val, fun char among => gap.property char (Text.mem_of_unified among)⟩, ?_⟩
  refine Text.unified_append fun _ found => ?_
  exact absurd (solid _ found) (by decide)

/-- By induction on the terms; the line feed after the last one is one more blank. -/
theorem exists_unified (gap : Gap) (terms : List Term) : ∃ (other : Gap) (others : List Term),
    others.map Term.step = terms.map Term.step ∧
      Text.unified (gap.val ++ (terms.flatMap Term.chars ++ ['\n'])) = other.val ++ others.flatMap Term.chars := by
  induction terms generalizing gap with
  | nil =>
    have blank : Blanks (gap.val ++ ['\n']) := by
      intro char among
      rcases List.mem_append.mp among with inside | last
      · exact gap.property char inside
      · rw [List.mem_singleton.mp last]
        exact Text.isBlank_lineFeed
    exact ⟨⟨Text.unified (gap.val ++ ['\n']), fun char among => blank char (Text.mem_of_unified among)⟩, [], rfl, by simp⟩
  | cons term terms ih =>
    obtain ⟨after, others, same, more⟩ := ih term.after
    have operator : Solid (term.operator.char :: (term.before.val ++ ((toString term.number).toList ++
        (term.after.val ++ (terms.flatMap Term.chars ++ ['\n']))))) := by
      refine solid_cons ?_ _
      cases term.operator <;> decide
    obtain ⟨before, inside⟩ := exists_unified_gap term.before (solid_number term.number
      (term.after.val ++ (terms.flatMap Term.chars ++ ['\n'])))
    obtain ⟨other, front⟩ := exists_unified_gap gap operator
    refine ⟨other, ⟨term.operator, before, term.number, after⟩ :: others, ?_, ?_⟩
    · rw [List.map_cons, List.map_cons, same, Term.step, Term.step]
    · simp only [List.flatMap_cons, Term.chars, List.cons_append, List.append_assoc]
      rw [front, unified_operator, inside, unified_number, more]

/-- Cut into lines, a written sum is another one of the same numbers and operators. -/
theorem exists_tokens (sum : Written) : ∃ other : Written, other.first = sum.first ∧ other.steps = sum.steps ∧
    (Input.ofText sum.text).ahead = other.chars := by
  obtain ⟨after, terms, same, onward⟩ := exists_unified sum.after sum.terms
  refine ⟨⟨sum.first, after, terms⟩, rfl, same, ?_⟩
  have some : sum.chars ≠ [] := by
    obtain ⟨negative, digits, written, some, -⟩ := exists_toString sum.first
    rw [Written.chars, written]
    simp [some]
  calc
    (Input.ofText sum.text).ahead
    _ = (Input.ofChars sum.chars).ahead := by rw [Written.text, Input.ofText, String.toList_ofList]
    _ = Text.unified (sum.chars ++ ['\n']) := by
      rw [← Input.tokens_eq_ahead, Input.tokens_ofChars some, Source.joined_ofChars, Text.unified_trimReturn]
    _ = (toString sum.first).toList ++ Text.unified (sum.after.val ++ (sum.terms.flatMap Term.chars ++ ['\n'])) := by
      rw [Written.chars, List.append_assoc, List.append_assoc, unified_number]
    _ = (toString sum.first).toList ++ (after.val ++ terms.flatMap Term.chars) := by rw [onward]

/-! ### Reading a written sum -/

section Traces

variable {Ref : Type → Type} (ask : Ask Ref) (depths : Depths)

theorem trace_number (word : Int64) (gap : Gap) {rest : List Char} (onward : Onward rest) :
    number.trace ask depths ((toString word).toList ++ (gap.val ++ rest)) = .took word rest := by
  have edge : ∀ char ∈ (gap.val ++ rest).head?, char.isDigit = false := by
    intro char found
    cases blanks : gap.val with
    | nil =>
      rw [blanks] at found
      exact (onward char found).1
    | cons first more =>
      have blank := gap.property first (by rw [blanks]; exact List.mem_cons_self)
      rw [blanks] at found
      cases found
      exact (edge_of_isBlank blank).1
  simp only [number, trace_keepLeft, trace_integer_toString ask depths word edge, Trace.bind_took, trace_spaces,
    dropWhile_blanks gap.property onward.solid, Trace.map_took]

theorem trace_operator (found : Operator) (rest : List Char) :
    operator.trace ask depths (found.char :: rest) = .took found rest := by
  cases found <;> rfl

theorem trace_term (term : Term) {rest : List Char} (onward : Onward rest) :
    ((operator.keepLeft spaces).andThen number).trace ask depths (term.chars ++ rest) = .took term.step rest := by
  have solid := solid_number term.number (term.after.val ++ rest)
  simp only [Term.chars, List.cons_append, List.append_assoc, trace_andThen, trace_keepLeft, trace_operator,
    Trace.bind_took, trace_spaces, dropWhile_blanks term.before.property solid, Trace.map_took,
    trace_number ask depths term.number term.after onward, Term.step]

theorem trace_terms (name : String) (terms : List Term) :
    Trace.many name (((operator.keepLeft spaces).andThen number).trace ask depths) (terms.flatMap Term.chars) =
      .took (terms.map Term.step) [] := by
  induction terms with
  | nil => exact Trace.many_of_stopped rfl
  | cons term terms ih =>
    have round := trace_term ask depths term (onward_terms terms)
    have shorter : (terms.flatMap Term.chars).length < (term.chars ++ terms.flatMap Term.chars).length := by
      rw [Term.chars, List.cons_append, List.length_cons, List.length_append]
      omega
    rw [List.flatMap_cons, Trace.many_of_took round shorter, ih]
    rfl

theorem trace_expression (sum : Written) :
    expression.trace ask depths sum.chars =
      match total sum.first sum.steps with
      | some value => .took value []
      | none => .stopped ⟨"expression", .refused "Result out of range", sum.chars⟩ := by
  have first := trace_number ask depths sum.first sum.after (onward_terms sum.terms)
  have terms := trace_terms ask depths ((operator.keepLeft spaces).andThen number : Parser Ref _).label sum.terms
  simp only [expression, trace_withLabel, trace_tryMap, trace_andThen, trace_many, Written.chars] at terms ⊢
  simp only [first, Trace.bind_took, terms, Trace.map_took]
  change (Rule.traceRefined _ _ (match total sum.first sum.steps with | some sum => _ | none => _) _).relabel _ = _
  cases total sum.first sum.steps <;> rfl

end Traces

/-! ### What a sum comes to -/

/-- The replies to a written sum: its exact value at the end of the text, if the exact value is in the range of words
after the first of the steps, however many; and else a refusal of the whole sum where it starts. -/
inductive Summed (sum : Written) : Reply Int64 → Prop
  | total {value : Int64} (inside : ∀ front, front <+: sum.steps → InRange (exact sum.first front))
    (same : value.toInt = exact sum.first sum.steps) : Summed sum (.accept value (Input.ofText sum.text).finish)
  | outside {front : List (Operator × Int64)} (within : front <+: sum.steps)
    (outside : ¬InRange (exact sum.first front)) :
    Summed sum (.reject ⟨"expression", .refused "Result out of range", ⟨(Input.ofText sum.text).line, ⟨0, 0⟩⟩⟩)

theorem Summed.unique {sum : Written} {reply other : Reply Int64} (summed : Summed sum reply)
    (too : Summed sum other) : other = reply := by
  cases summed with
  | total inside same =>
    cases too with
    | total _ same' => rw [Int64.toInt_inj.mp (same.trans same'.symm)]
    | outside within outside => exact absurd (inside _ within) outside
  | outside within outside =>
    cases too with
    | total inside => exact absurd (inside _ within) outside
    | outside => rfl

theorem ahead_finish (input : Input) : input.finish.ahead = [] := by
  rw [Input.finish, Input.ahead_advance]
  exact List.drop_eq_nil_of_le input.length_ahead_le

/-- Whatever blanks stand in a sum, it is read to the end of the text and comes to its exact value, if that stays in the
range of words all the way; and if it ever leaves the range, even to come back, the whole sum is refused. -/
theorem expression_settles {Ref : Type → Type} (wiring : Wiring Ref) (gauges : Gauges) (sum : Written) :
    (Input.ofText sum.text).finish.next? = none ∧
      ∀ reply, (expression.run wiring sum.text gauges).reply = reply ↔ Summed sum reply := by
  refine ⟨Input.next?_eq_none.mpr (ahead_finish _), ?_⟩
  have replied : (expression.run wiring sum.text gauges).reply =
      (expression.parse wiring (Input.ofText sum.text) gauges).reply := Parser.reply_run wiring expression sum.text gauges
  have summed : Summed sum (expression.parse wiring (Input.ofText sum.text) gauges).reply := by
    obtain ⟨other, first, steps, ahead⟩ := exists_tokens sum
    have places := (expression.parse_agrees wiring (Input.ofText sum.text) gauges).reply
    change (expression.trace _ _ _).answer.Places _ _ at places
    rw [ahead, trace_expression, first, steps, ← ahead] at places
    cases ended : total sum.first sum.steps with
    | some value =>
      obtain ⟨same, inside⟩ := total_eq_some ended
      rw [ended, ← ahead_finish (Input.ofText sum.text)] at places
      rw [places.eq_accept (Input.leads_advance _ _)]
      exact .total inside same
    | none =>
      obtain ⟨front, within, outside⟩ := total_eq_none ended
      rw [ended] at places
      rw [places.unique (.stopped (Stop.snapshot_places _ _ (Input.ofText sum.text)))]
      exact .outside within outside
  rw [replied]
  exact fun reply => ⟨fun same => same ▸ summed, fun too => too.unique summed⟩

/-- A minus sign after an operator belongs to the number, also on the next line. -/
example : (evaluate "1 -\r\n-2 ").value? = some 3 := rfl

end Sum

end Caret
