import Caret.Parser.Numerals
import Caret.Proofs.Enumeration
import Caret.Proofs.Json.Longest
import Caret.Proofs.Number.Printed
import Mathlib.Data.Nat.Digits.Defs

/-!
Integers in decimal digits. A sign or none and then the digits as far as they go are taken for the number that they
denote; without a digit there is no integer, and beyond the range of words none is taken. The decimal form of a word is
such a sign and such digits, so words with commas between them read back as the list of these words.
-/

namespace Caret

open Json Json.Syntax

/-! ### Words and their decimal forms -/

theorem toWord?_eq_some {value : Int} {word : Int64} : toWord? value = some word ↔ word.toInt = value := by
  have least := word.le_toInt
  have most := word.toInt_lt
  simp only [toWord?, fits, Bool.and_eq_true, decide_eq_true_eq]
  split
  · next inside =>
    rw [Option.some.injEq, ← Int64.toInt_inj, Int64.toInt_ofInt_of_le inside.1 inside.2, eq_comm]
  · next outside =>
    refine ⟨nofun, fun same => absurd ?_ outside⟩
    exact same ▸ ⟨least, most⟩

theorem toWord?_eq_none {value : Int} : toWord? value = none ↔ ¬(-2 ^ 63 ≤ value ∧ value < 2 ^ 63) := by
  simp [toWord?, fits]

def denoted (sign digits : List Char) : Int :=
  let size : Nat := Nat.ofDigits 10 (digits.map digitValue).reverse
  if sign = [] then size else -size

theorem denoted_minus (negative : Bool) (digits : List Char) :
    denoted (Literal.minus negative) digits = signedValue negative digits := by
  have size : Nat.ofDigits 10 (digits.map digitValue).reverse = digitsValue digits := by
    rw [Nat.ofDigits_eq_foldr, List.foldr_reverse, List.foldl_map, digitsValue]
    simp only [Nat.cast_id, Nat.add_comm]
  cases negative <;> simp [denoted, size, signedValue, Literal.minus]

/-- A word is written with a minus sign or none and the digits of its size. -/
theorem exists_toString (word : Int64) : ∃ negative digits, (toString word).toList = Literal.minus negative ++ digits ∧
    digits ≠ [] ∧ Digits digits ∧ toWord? (signedValue negative digits) = some word := by
  have digits : ∀ number, Digits (Nat.toDigits 10 number) :=
    fun number char among => Nat.isDigit_of_mem_toDigits (by decide) (by decide) among
  have value : ∀ number, digitsValue (Nat.toDigits 10 number) = number := by
    intro number
    rw [digitsValue_eq, Nat.ofDigitChars_toDigits (by decide) (by decide)]
  have written : toString word = word.toInt.repr := rfl
  cases signed : word.toInt with
  | ofNat number =>
    refine ⟨false, Nat.toDigits 10 number, ?_, Nat.toDigits_ne_nil, digits number, ?_⟩
    · rw [written, signed]
      exact Nat.toList_repr
    · rw [toWord?_eq_some, signed, signedValue, value]
      rfl
  | negSucc number =>
    refine ⟨true, Nat.toDigits 10 (number + 1), ?_, Nat.toDigits_ne_nil, digits _, ?_⟩
    · rw [written, signed]
      simp [Int.repr, Literal.minus]
    · rw [toWord?_eq_some, signed, signedValue, value]
      rfl

/-- On a single line the characters that were taken are the column. -/
theorem Input.advance_ofText_of_line {text : String} (single : '\n' ∉ text.toList) (bare : '\r' ∉ text.toList) :
    (ofText text).advance text.toList.length = (ofText text).moveTo ⟨0, text.toList.length⟩ := by
  by_cases none : text.toList = []
  · rw [none]
    rfl
  · have line : (ofText text).source.lines[0]? = some text.toList.toArray := by
      simp [ofText, ofChars, Source.lines_of_line none single bare]
    have there := @advance_column _ _ _ line 0 text.toList.length (by simp)
    rwa [Nat.zero_add] at there

namespace Parser

variable {Ref : Type → Type}

/-! ### One integer -/

section Traces

variable (ask : Ask Ref) (depths : Depths)

theorem trace_integer (ahead : List Char) :
    integer.trace ask depths ahead =
      if (Scan.minus ahead).2.takeWhile Char.isDigit = [] then .stopped (.here "integer" (Scan.minus ahead).2)
      else match toWord? (signedValue (Scan.minus ahead).1 ((Scan.minus ahead).2.takeWhile Char.isDigit)) with
        | some word => .took word ((Scan.minus ahead).2.dropWhile Char.isDigit)
        | none => .stopped ⟨"integer", .refused "Integer out of range", ahead⟩ := by
  simp only [integer, trace_withLabel, trace_tryMap, trace_andThen, trace_minus, Trace.bind_took, trace_digits]
  by_cases none : (Scan.minus ahead).2.takeWhile Char.isDigit = []
  · simp [none, Stop.relabel_here]
  · have sign : (if (Scan.minus ahead).1 = true then some '-' else Option.none).isSome = (Scan.minus ahead).1 := by
      cases (Scan.minus ahead).1 <;> rfl
    simp only [if_neg none, Trace.map_took, Trace.bind_took, sign]
    cases toWord? (signedValue (Scan.minus ahead).1 ((Scan.minus ahead).2.takeWhile Char.isDigit)) <;> rfl

/-- The decimal form of a word is taken, if no digit comes after it. -/
theorem trace_integer_toString (word : Int64) {rest : List Char} (edge : ∀ char ∈ rest.head?, char.isDigit = false) :
    integer.trace ask depths ((toString word).toList ++ rest) = .took word rest := by
  obtain ⟨negative, digits, written, some, all, value⟩ := exists_toString word
  have front : ∀ char ∈ (digits ++ rest).head?, char ≠ '-' := by
    obtain ⟨first, others, rfl⟩ := List.exists_cons_of_ne_nil some
    rintro char same
    cases same
    exact ne_of_accepts (all first (by simp)) (by decide)
  obtain ⟨taken, dropped⟩ := cut_of_all all edge
  rw [written, List.append_assoc, trace_integer, Scan.minus_spelled negative front, taken, dropped, if_neg some, value]

end Traces

structure Fronts (ahead sign digits rest : List Char) : Prop where
  cut : ahead = sign ++ (digits ++ rest)
  signed : Longest Sign sign (digits ++ rest)
  run : Longest Digits digits rest

/-- The replies to an integer: with no digits it is missing where the sign ends, out of the range of words it is refused
where it starts, and else it is what the digits denote. -/
inductive Integral (input : Input) : Reply Int64 → Prop
  | missing {sign rest : List Char} (fronts : Fronts input.ahead sign [] rest) :
    Integral input (.reject (.here "integer" (input.advance sign.length)))
  | outside {sign digits rest : List Char} (fronts : Fronts input.ahead sign digits rest) (some : digits ≠ [])
    (outside : ¬(-2 ^ 63 ≤ denoted sign digits ∧ denoted sign digits < 2 ^ 63)) :
    Integral input (.reject ⟨"integer", .refused "Integer out of range", input.snapshot⟩)
  | taken {sign digits rest : List Char} {word : Int64} (fronts : Fronts input.ahead sign digits rest)
    (some : digits ≠ []) (same : word.toInt = denoted sign digits) :
    Integral input (.accept word (input.advance (sign ++ digits).length))

theorem fronts_minus (ahead : List Char) :
    Fronts ahead (Literal.minus (Scan.minus ahead).1) ((Scan.minus ahead).2.takeWhile Char.isDigit)
      ((Scan.minus ahead).2.dropWhile Char.isDigit) where
  cut := by rw [List.takeWhile_append_dropWhile, Scan.minus_append]
  signed := by
    rw [List.takeWhile_append_dropWhile]
    exact Scan.longest_minus ahead
  run :=
    { spelled := List.all_eq_true.mp List.all_takeWhile
      most := by
        intro other all within
        rw [List.takeWhile_append_dropWhile] at within
        obtain ⟨more, same⟩ := within
        rw [← same]
        exact Scan.length_le_takeWhile all more }

theorem Fronts.unique {ahead sign digits rest sign' digits' rest' : List Char} (fronts : Fronts ahead sign digits rest)
    (too : Fronts ahead sign' digits' rest') : sign = sign' ∧ digits = digits' := by
  obtain ⟨same, onward⟩ := fronts.signed.unique too.signed (fronts.cut.symm.trans too.cut)
  exact ⟨same, (fronts.run.unique too.run onward).1⟩

theorem Integral.unique {input : Input} {reply other : Reply Int64} (integral : Integral input reply)
    (too : Integral input other) : other = reply := by
  cases integral with
  | missing fronts =>
    cases too with
    | missing fronts' => rw [(fronts.unique fronts').1]
    | outside fronts' some | taken fronts' some => exact absurd (fronts.unique fronts').2.symm some
  | outside fronts some outside =>
    cases too with
    | missing fronts' => exact absurd (fronts.unique fronts').2 some
    | outside => rfl
    | @taken _ _ _ word fronts' _ same =>
      obtain ⟨rfl, rfl⟩ := fronts.unique fronts'
      exact absurd (same ▸ ⟨word.le_toInt, word.toInt_lt⟩) outside
  | @taken _ _ _ word fronts some same =>
    cases too with
    | missing fronts' => exact absurd (fronts.unique fronts').2 some
    | outside fronts' _ outside =>
      obtain ⟨rfl, rfl⟩ := fronts.unique fronts'
      exact absurd (same ▸ ⟨word.le_toInt, word.toInt_lt⟩) outside
    | taken fronts' _ same' =>
      obtain ⟨rfl, rfl⟩ := fronts.unique fronts'
      rw [Int64.toInt_inj.mp (same.trans same'.symm)]

theorem integral_of_places (ask : Ask Ref) (depths : Depths) {input : Input} {reply : Reply Int64}
    (places : (integer.trace ask depths input.ahead).answer.Places input reply) : Integral input reply := by
  have fronts := fronts_minus input.ahead
  have value := denoted_minus (Scan.minus input.ahead).1 ((Scan.minus input.ahead).2.takeWhile Char.isDigit)
  rw [trace_integer] at places
  split at places
  · next none =>
    rw [none] at fronts
    rw [← Input.ahead_advance_of_append (Scan.minus_append input.ahead).symm] at places
    rw [places.eq_reject (input.leads_advance _)]
    exact .missing fronts
  · next some =>
    split at places
    · next word found =>
      rw [← value, toWord?_eq_some] at found
      have cut := fronts.cut
      rw [← List.append_assoc] at cut
      rw [← Input.ahead_advance_of_append cut] at places
      rw [places.eq_accept (input.leads_advance _)]
      exact .taken fronts some found
    · next found =>
      rw [← value, toWord?_eq_none] at found
      rw [places.unique (.stopped (Stop.snapshot_places _ _ input))]
      exact .outside fronts some found

/-! ### Integers with commas between them -/

theorem intercalate_comma (head : List Char) (tail : List (List Char)) :
    [','].intercalate (head :: tail) = head ++ tail.flatMap (',' :: ·) := by
  induction tail generalizing head with
  | nil => simp
  | cons next tail ih => rw [List.intercalate_cons_cons, ih, List.flatMap_cons, List.append_assoc, List.singleton_append,
      List.cons_append]

section Lists

variable (ask : Ask Ref) (depths : Depths)

/-- After an integer comes a comma, or what comes after them all. -/
theorem head_more (words : List Int64) {rest : List Char} (edge : ∀ char ∈ rest.head?, char.isDigit = false) :
    ∀ char ∈ ((words.map fun word => (toString word).toList).flatMap (',' :: ·) ++ rest).head?,
      char.isDigit = false := by
  cases words with
  | nil => exact edge
  | cons next words =>
    rintro char same
    cases same
    rfl

/-- By induction on the words: each comma begins the next round, and where there is none the repetition ends. -/
theorem trace_more_integers (name : String) (words : List Int64) {rest : List Char}
    (edge : ∀ char ∈ rest.head?, char.isDigit = false ∧ char ≠ ',') :
    Trace.many name (((char ',').keepRight integer).trace ask depths)
      ((words.map fun word => (toString word).toList).flatMap (',' :: ·) ++ rest) = .took words rest := by
  induction words with
  | nil =>
    cases rest with
    | nil => exact Trace.many_of_stopped rfl
    | cons token rest =>
      have other : (token == ',') = false := by simpa using (edge token rfl).2
      have stopped : ((char ',').keepRight integer).trace ask depths (token :: rest) =
          .stopped (.here "," (token :: rest)) := by
        simp only [trace_keepRight, trace_char, Rule.traceSatisfy_cons, other]
        rfl
      exact Trace.many_of_stopped stopped
  | cons word words ih =>
    have moved := trace_integer_toString ask depths word (head_more words fun char first => (edge char first).1)
    rw [List.map_cons, List.flatMap_cons, List.append_assoc, List.cons_append]
    generalize (words.map fun word => (toString word).toList).flatMap (',' :: ·) ++ rest = more at ih moved ⊢
    have round : ((char ',').keepRight integer).trace ask depths (',' :: ((toString word).toList ++ more)) =
        .took word more := by
      simp only [trace_keepRight, trace_char, Rule.traceSatisfy_cons, beq_self_eq_true, if_true, Trace.bind_took]
      exact moved
    have shorter : more.length < (',' :: ((toString word).toList ++ more)).length := by
      rw [List.length_cons, List.length_append]
      omega
    rw [Trace.many_of_took round shorter, ih]
    rfl

/-- Without a word there is no integer either, since what is left begins with neither a sign nor a digit. -/
theorem trace_integers (words : List Int64) {rest : List Char}
    (edge : ∀ char ∈ rest.head?, char.isDigit = false ∧ char ≠ ',' ∧ char ≠ '-') :
    (integer.sepBy (char ',')).trace ask depths
      ([','].intercalate (words.map fun word => (toString word).toList) ++ rest) = .took words rest := by
  have digit : ∀ char ∈ rest.head?, char.isDigit = false := fun char first => (edge char first).1
  cases words with
  | nil =>
    have sign := Scan.minus_spelled false fun char first => (edge char first).2.2
    have none := (@cut_of_all _ [] rest nofun digit).1
    rw [Literal.minus, if_neg Bool.false_ne_true, List.nil_append] at sign
    rw [List.nil_append] at none
    simp only [trace_sepBy, trace_sepBy1, List.map_nil, List.intercalate_nil, List.nil_append, trace_integer, sign, none,
      if_true, Trace.bind_stopped, Trace.recover_stopped]
  | cons head words =>
    have tail := trace_more_integers ask depths ((char ',').keepRight integer : Parser Ref Int64).label words
      fun char first => ⟨(edge char first).1, (edge char first).2.1⟩
    have first : ∀ char ∈ ((words.map fun word => (toString word).toList).flatMap (',' :: ·) ++ rest).head?,
        char.isDigit = false := head_more words digit
    rw [List.map_cons, intercalate_comma, List.append_assoc]
    simp only [trace_sepBy, trace_sepBy1, trace_integer_toString ask depths head first, Trace.bind_took, tail,
      Trace.map_took, Trace.recover_took]

end Lists

/-! ### What a run replies -/

theorem bare_toString (word : Int64) {char : Char} (among : char ∈ (toString word).toList) :
    char = '-' ∨ char.isDigit = true := by
  obtain ⟨negative, digits, written, -, all, -⟩ := exists_toString word
  rw [written, List.mem_append] at among
  rcases among with sign | digit
  · cases negative with
    | false => cases sign
    | true => exact .inl (List.mem_singleton.mp sign)
  · exact .inr (all char digit)

theorem bare_intercalate (words : List Int64) {char : Char}
    (among : char ∈ [','].intercalate (words.map fun word => (toString word).toList)) :
    char = ',' ∨ char = '-' ∨ char.isDigit = true := by
  cases words with
  | nil => cases among
  | cons head words =>
    rw [List.map_cons, intercalate_comma, List.mem_append, List.mem_flatMap] at among
    rcases among with first | ⟨form, written, more⟩
    · exact .inr (bare_toString head first)
    · obtain ⟨word, -, rfl⟩ := List.mem_map.mp written
      rcases List.mem_cons.mp more with rfl | more
      · exact .inl rfl
      · exact .inr (bare_toString word more)

/-- The tokens of such a text: its characters, and the end of the line if it has any. -/
theorem lines_intercalate (words : List Int64) {text : String}
    (written : text.toList = [','].intercalate (words.map fun word => (toString word).toList)) :
    '\n' ∉ text.toList ∧ '\r' ∉ text.toList ∧ ∃ rest, (Input.ofText text).ahead = text.toList ++ rest ∧
      ∀ char ∈ rest.head?, char = '\n' := by
  have lacks : ∀ other, other ≠ ',' → other ≠ '-' → other.isDigit = false → other ∉ text.toList := by
    intro other comma minus digit among
    rw [written] at among
    rcases bare_intercalate words among with same | same | same
    · exact comma same
    · exact minus same
    · exact Bool.false_ne_true (digit.symm.trans same)
  have single : '\n' ∉ text.toList := lacks _ (by decide) (by decide) (by decide)
  have bare : '\r' ∉ text.toList := lacks _ (by decide) (by decide) (by decide)
  refine ⟨single, bare, ?_⟩
  by_cases none : text.toList = []
  · rw [Input.ofText, none]
    exact ⟨[], rfl, by simp⟩
  · exact ⟨['\n'], Input.ahead_ofChars_of_line none single bare, by simp⟩

/-- Wherever an integer is asked for, its digits are all those that come after a sign or none, and its reply is settled by
the number that they denote; and from a text of any words with commas between them just these words are read, and the
cursor is left right after the last one. -/
theorem integer_settles (wiring : Wiring Ref) (gauges : Gauges) :
    (∀ (input : Input) (reply : Reply Int64),
      (integer.parse wiring input gauges).reply = reply ↔ Integral input reply) ∧
      ∀ words : List Int64,
        let text := ",".intercalate (words.map toString)
        ((integer.sepBy (char ',')).run wiring text gauges).reply =
          .accept words ((Input.ofText text).moveTo ⟨0, text.length⟩) := by
  constructor
  · intro input reply
    have integral : Integral input (integer.parse wiring input gauges).reply :=
      integral_of_places _ _ (integer.parse_agrees wiring input gauges).reply
    exact ⟨fun same => same ▸ integral, fun too => integral.unique too ▸ rfl⟩
  · intro words text
    have written : text.toList = [','].intercalate (words.map fun word => (toString word).toList) := by
      rw [String.toList_intercalate, List.map_map]
      rfl
    obtain ⟨single, bare, rest, ahead, edge⟩ := lines_intercalate words written
    have places := ((integer.sepBy (char ',')).parse_agrees wiring (Input.ofText text) gauges).reply
    change ((integer.sepBy (char ',')).trace _ _ _).answer.Places _ _ at places
    rw [ahead, written, trace_integers _ _ words (fun char first => by rw [edge char first]; decide),
      ← Input.ahead_advance_of_append ahead] at places
    rw [← String.length_toList, ← Input.advance_ofText_of_line single bare]
    exact places.eq_accept (Input.leads_advance _ _)

end Parser

end Caret
