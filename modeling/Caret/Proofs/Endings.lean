import Caret.Json.Document
import Caret.Proofs.Lines
import Caret.Sum

/-!
Line ends. The lines of a text are the pieces between its line feeds, once every carriage return and line feed is taken
for one line feed. So a text without carriage returns has the same lines in either style of line ends, and nothing that
reads it can tell the styles apart. A carriage return at the very end of a text is dropped as well, though no line feed
comes after it; every other one that stands alone is kept.
-/

namespace Caret

namespace Text

/-- The text with a line feed in the place of every carriage return and line feed. -/
def unified : List Char → List Char
  | [] => []
  | '\r' :: '\n' :: rest => '\n' :: unified rest
  | char :: rest => char :: unified rest

def returned (chars : List Char) : List Char :=
  chars.flatMap fun char => if char = '\n' then ['\r', '\n'] else [char]

theorem unified_cons {char : Char} {rest : List Char} (alone : char = '\r' → rest.head? ≠ some '\n') :
    unified (char :: rest) = char :: unified rest := by
  rw [unified]
  rintro more rfl rfl
  exact alone rfl rfl

theorem unified_of_bare {chars : List Char} (bare : '\r' ∉ chars) : unified chars = chars := by
  induction chars with
  | nil => rfl
  | cons char chars ih =>
    rw [List.mem_cons, not_or] at bare
    rw [unified_cons fun same => absurd same.symm bare.1, ih bare.2]

theorem unified_returned {chars : List Char} (bare : '\r' ∉ chars) : unified (returned chars) = chars := by
  induction chars with
  | nil => rfl
  | cons char chars ih =>
    rw [List.mem_cons, not_or] at bare
    by_cases feed : char = '\n'
    · subst feed
      calc
        unified (returned ('\n' :: chars)) = '\n' :: unified (returned chars) := rfl
        _ = '\n' :: chars := by rw [ih bare.2]
    · have front : returned (char :: chars) = char :: returned chars := by
        rw [returned, List.flatMap_cons, if_neg feed, List.singleton_append, returned]
      rw [front, unified_cons fun same => absurd same.symm bare.1, ih bare.2]

theorem getLast?_returned (chars : List Char) : (returned chars).getLast? = chars.getLast? := by
  rcases chars.eq_nil_or_concat with rfl | ⟨front, last, rfl⟩
  · rfl
  · rw [List.concat_eq_append, returned, List.flatMap_append, List.flatMap_singleton]
    by_cases feed : last = '\n' <;> simp [feed]

/-- Nothing but a line feed can come right after a carriage return that is dropped, so the last one stays. -/
theorem unified_append_return (chars : List Char) : unified (chars ++ ['\r']) = unified chars ++ ['\r'] := by
  fun_induction unified chars with
  | case1 => rfl
  | case2 rest ih =>
    rw [List.cons_append, List.cons_append, unified, ih, List.cons_append]
  | case3 char rest alone ih =>
    have first : char = '\r' → (rest ++ ['\r']).head? ≠ some '\n' := by
      intro same
      cases rest with
      | nil => simp
      | cons next rest => exact fun found => alone rest same (by simpa using found)
    rw [List.cons_append, unified_cons first, ih, List.cons_append]

end Text

open Text

namespace Source

theorem trimReturn_append_return (chars : List Char) : trimReturn (chars ++ ['\r']) = chars := by
  rw [trimReturn, if_pos (by simp), List.dropLast_concat]

/-- Only the last character of a text is ever trimmed. -/
theorem trimReturn_cons {char : Char} {rest : List Char} (more : char = '\r' → rest ≠ []) :
    trimReturn (char :: rest) = char :: trimReturn rest := by
  cases rest with
  | nil =>
    have last : [char].getLast? ≠ some '\r' := by simpa using more
    rw [trimReturn_of_last last]
    rfl
  | cons next rest =>
    unfold trimReturn
    rw [List.getLast?_cons_cons, List.dropLast_cons_of_ne_nil (List.cons_ne_nil next rest)]
    split <;> rfl

theorem head?_of_trimReturn {chars : List Char} {char : Char} (found : (trimReturn chars).head? = some char) :
    chars.head? = some char := by
  unfold trimReturn at found
  split at found
  · obtain ⟨rest, same⟩ := List.head?_eq_some_iff.mp found
    have front : char :: rest <+: chars := same ▸ List.dropLast_prefix chars
    obtain ⟨more, rfl⟩ := front
    rfl
  · exact found

theorem pieces_eq_splitOn (chars : List Char) :
    (pieces chars).1 :: (pieces chars).2 = chars.splitOn '\n' := by
  induction chars with
  | nil => rfl
  | cons char chars ih =>
    have next : pieces (char :: chars) = cut char (pieces chars) := rfl
    rw [List.splitOn_cons_eq_if_modifyHead, ← ih, next, cut]
    by_cases feed : char = '\n' <;> simp [feed]

/-- The first piece is empty only where there is nothing before a line feed. -/
theorem head_of_pieces {chars : List Char} (empty : (pieces chars).1 = []) :
    chars = [] ∨ chars.head? = some '\n' := by
  cases chars with
  | nil => exact .inl rfl
  | cons char chars =>
    have next : pieces (char :: chars) = cut char (pieces chars) := rfl
    rw [next, cut] at empty
    split at empty
    · next feed => exact .inr (by rw [feed, List.head?_cons])
    · simp at empty

/-- Trimming every piece comes to the same as trimming the whole text and taking each carriage return and line feed for a
line feed before the text is cut. -/
theorem trimmed_pieces (chars : List Char) :
    (trimReturn (pieces chars).1, (pieces chars).2.map trimReturn) = pieces (unified (trimReturn chars)) := by
  fun_induction unified chars with
  | case1 => rfl
  | case2 rest ih =>
    have whole : trimReturn ('\r' :: '\n' :: rest) = '\r' :: '\n' :: trimReturn rest := by
      rw [trimReturn_cons fun _ => List.cons_ne_nil _ _, trimReturn_cons (by simp)]
    have next : pieces ('\r' :: '\n' :: rest) = (['\r'], (pieces rest).1 :: (pieces rest).2) := rfl
    calc
      (trimReturn (pieces ('\r' :: '\n' :: rest)).1, (pieces ('\r' :: '\n' :: rest)).2.map trimReturn) =
          ([], trimReturn (pieces rest).1 :: (pieces rest).2.map trimReturn) := by rw [next]; rfl
      _ = cut '\n' (trimReturn (pieces rest).1, (pieces rest).2.map trimReturn) := rfl
      _ = pieces ('\n' :: unified (trimReturn rest)) := by rw [ih]; rfl
      _ = pieces (unified (trimReturn ('\r' :: '\n' :: rest))) := by rw [whole, unified]
  | case3 char rest alone ih =>
    have next : pieces (char :: rest) = cut char (pieces rest) := rfl
    by_cases last : char = '\r' ∧ rest = []
    · obtain ⟨rfl, rfl⟩ := last
      rfl
    · have more : char = '\r' → rest ≠ [] := fun same none => last ⟨same, none⟩
      have unfed : char = '\r' → rest.head? ≠ some '\n' := by
        intro same found
        obtain ⟨tail, rfl⟩ := List.head?_eq_some_iff.mp found
        exact alone tail same rfl
      have onward : unified (trimReturn (char :: rest)) = char :: unified (trimReturn rest) := by
        rw [trimReturn_cons more, unified_cons fun same found => unfed same (head?_of_trimReturn found)]
      have again : pieces (char :: unified (trimReturn rest)) = cut char (pieces (unified (trimReturn rest))) := rfl
      rw [onward, again, ← ih, next]
      by_cases feed : char = '\n'
      · rw [cut, if_pos feed, cut, if_pos feed]
        rfl
      · have inside : char = '\r' → (pieces rest).1 ≠ [] := by
          intro same empty
          rcases head_of_pieces empty with none | found
          · exact more same none
          · exact unfed same found
        rw [cut, if_neg feed, cut, if_neg feed, trimReturn_cons inside]

theorem ofChars_eq {chars : List Char} (some : chars ≠ []) :
    ofChars chars = ofLines (((unified (trimReturn chars)).splitOn '\n').map List.toArray).toArray := by
  unfold ofChars
  rw [if_neg (by simpa using some), ← pieces_eq_splitOn, ← trimmed_pieces chars]
  simp [Function.comp_def]

def joined (source : Source) : List Char :=
  ['\n'].intercalate (source.lines.toList.map Array.toList)

theorem joined_ofChars (chars : List Char) : (ofChars chars).joined = unified (trimReturn chars) := by
  by_cases none : chars = []
  · subst none
    rfl
  · rw [joined, ofChars_eq none]
    simp [ofLines, Function.comp_def, List.intercalate_splitOn]

end Source

/-! ### What is read -/

namespace Input

/-- From the start all lines are ahead. -/
theorem ahead_start (source : Source) :
    (⟨source, Position.start⟩ : Input).ahead = source.lines.toList.flatMap Line.tokens := by
  unfold ahead
  cases found : source.lines[0]? with
  | none =>
    have none : source.lines.toList = [] := by simpa using Array.getElem?_eq_none_iff.mp found
    simp [Position.start, found, none]
  | some line =>
    obtain ⟨bound, same⟩ := Array.getElem?_eq_some_iff.mp found
    have cut : source.lines.toList = line :: source.lines.toList.drop 1 := by
      conv => lhs; rw [← List.drop_zero (l := source.lines.toList), List.drop_eq_getElem_cons (by simpa using bound)]
      simp [same]
    conv => rhs; rw [cut]
    simp [Position.start, found, Line.tokens]

theorem flatMap_tokens {lines : List Line} (some : lines ≠ []) :
    lines.flatMap Line.tokens = ['\n'].intercalate (lines.map Array.toList) ++ ['\n'] := by
  induction lines with
  | nil => exact absurd rfl some
  | cons line lines ih =>
    cases lines with
    | nil => simp [Line.tokens]
    | cons next lines =>
      rw [List.flatMap_cons, ih (List.cons_ne_nil next lines)]
      simp [Line.tokens, List.intercalate_cons_cons]

theorem tokens_ofChars {chars : List Char} (some : chars ≠ []) :
    (ofChars chars).tokens = (Source.ofChars chars).joined ++ ['\n'] := by
  have lines : (Source.ofChars chars).lines.toList ≠ [] := by
    rw [Source.ofChars_eq some]
    simp [Source.ofLines, List.splitOn_ne_nil]
  rw [tokens_eq_ahead, ofChars, ahead_start, flatMap_tokens lines, Source.joined]

/-- The lines of a text, joined, are the text with one line feed for each carriage return and line feed, but that a
carriage return at its very end is dropped too: so they are just that if the text does not end with one. The tokens are
the joined lines and one more line feed, and the empty text has none. -/
theorem joined_ofText (text : String) :
    (ofText text).source.joined = unified (Source.trimReturn text.toList) ∧
      ((ofText text).source.joined = unified text.toList ↔ text.toList.getLast? ≠ some '\r') ∧
      (ofText text).tokens = if text = "" then [] else (ofText text).source.joined ++ ['\n'] := by
  have joined : (ofText text).source.joined = unified (Source.trimReturn text.toList) := Source.joined_ofChars text.toList
  refine ⟨joined, ⟨?_, ?_⟩, ?_⟩
  · intro same last
    obtain ⟨front, split⟩ := List.getLast?_eq_some_iff.mp last
    rw [joined, split, Source.trimReturn_append_return, unified_append_return] at same
    exact absurd (congrArg List.length same) (by simp)
  · intro last
    rw [joined, Source.trimReturn_of_last last]
  · split
    · next empty =>
      subst empty
      rfl
    · next some => exact tokens_ofChars (by simpa using some)

/-- The carriage return at the end of a text is lost, though no line feed comes after it. -/
theorem joined_return : (ofText "a\r").source.joined ≠ unified "a\r".toList := by
  decide

/-! ### Two styles of line ends -/

theorem ofText_returned {text : String} (bare : '\r' ∉ text.toList) :
    ofText (String.ofList (returned text.toList)) = ofText text := by
  have last := getLast?_returned text.toList
  have kept : ∀ chars : List Char, chars.getLast? = text.toList.getLast? → Source.trimReturn chars = chars :=
    fun chars same => Source.trimReturn_of_last fun ends => bare (List.mem_of_getLast? (same ▸ ends))
  have same : Source.ofChars (returned text.toList) = Source.ofChars text.toList := by
    by_cases empty : text.toList = []
    · rw [empty]
      rfl
    · have some : returned text.toList ≠ [] := fun none => empty (by simpa [none] using last.symm)
      rw [Source.ofChars_eq some, Source.ofChars_eq empty, kept _ last, kept _ rfl, unified_returned bare,
        unified_of_bare bare]
  rw [ofText, ofText, String.toList_ofList, ofChars, ofChars, same]

end Input

/-- Put a carriage return before every line feed of a text without one: the cursor on it is the same, so every run of
every parser comes to what it came to, value and rest or failure, and so does every reading of a document. -/
theorem run_returned {text : String} (bare : '\r' ∉ text.toList) :
    let other := String.ofList (returned text.toList)
    Input.ofText other = Input.ofText text ∧
    (∀ {Ref : Type → Type} {α : Type} (parser : Parser Ref α) (wiring : Wiring Ref) (gauges : Gauges),
      parser.run wiring other gauges = parser.run wiring text gauges) ∧
    (∀ {Ref : Type → Type} (grammar : Json.Grammar Ref) (wiring : Wiring Ref) (gauges : Gauges),
      grammar.read wiring other gauges = grammar.read wiring text gauges) ∧
    ∀ options, Json.parse other options = Json.parse text options := by
  intro other
  have same : Input.ofText other = Input.ofText text := Input.ofText_returned bare
  have runs : ∀ {Ref : Type → Type} {α : Type} (parser : Parser Ref α) (wiring : Wiring Ref) (gauges : Gauges),
      parser.run wiring other gauges = parser.run wiring text gauges := by
    intro Ref α parser wiring gauges
    simp only [Parser.run, same]
  have reads : ∀ {Ref : Type → Type} (grammar : Json.Grammar Ref) (wiring : Wiring Ref) (gauges : Gauges),
      grammar.read wiring other gauges = grammar.read wiring text gauges := by
    intro Ref grammar wiring gauges
    simp only [Json.Grammar.read, runs]
  refine ⟨same, runs, reads, ?_⟩
  intro options
  rw [Json.parse, Json.parse, reads]

/-- A line break inside a string and one after it; and a parser that stops on the third line. -/
theorem run_returned_inside :
    Json.parse "[\"\r\n\"]\r\n" = Json.parse "[\"\n\"]\n" ∧
      Json.stringRule.run Sum.wiring "\r\n\r\nx" [] = Json.stringRule.run Sum.wiring "\n\nx" [] := by
  have inside : '\r' ∉ "[\"\n\"]\n".toList := by decide
  have between : '\r' ∉ "\n\nx".toList := by decide
  exact ⟨(run_returned inside).2.2.2 {}, (run_returned between).2.1 Json.stringRule Sum.wiring []⟩

end Caret
