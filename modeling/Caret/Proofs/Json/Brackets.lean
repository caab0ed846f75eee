import Caret.Proofs.Json.Numeral

/-!
How many brackets are open at a place in a document, told from the tokens alone. Brackets in strings do not count, so
the count goes along with whether the place is in a string and whether it is after a backslash there. Words of the syntax
leave the count as it was, and between them it never rises above the room they were given.
-/

namespace Caret.Json

inductive Mode where
  | plain
  | quoted
  /-- Right after a backslash in a string. -/
  | escaped
deriving DecidableEq

/-- What is known of the brackets before a place. -/
structure Brackets where
  mode : Mode := .plain
  /-- How many are open. -/
  opened : Nat := 0
  /-- How many were open at most. -/
  peak : Nat := 0
deriving DecidableEq

namespace Brackets

def Opens (char : Char) : Prop :=
  char = '[' ∨ char = '\x7b'

def Closes (char : Char) : Prop :=
  char = ']' ∨ char = '\x7d'

instance (char : Char) : Decidable (Opens char) := inferInstanceAs (Decidable (_ ∨ _))

instance (char : Char) : Decidable (Closes char) := inferInstanceAs (Decidable (_ ∨ _))

def step (brackets : Brackets) (char : Char) : Brackets :=
  match brackets.mode with
  | .plain =>
    if char = '"' then { brackets with mode := .quoted }
    else if Opens char then
      { brackets with opened := brackets.opened + 1, peak := max brackets.peak (brackets.opened + 1) }
    else if Closes char then { brackets with opened := brackets.opened - 1 }
    else brackets
  | .quoted =>
    if char = '\\' then { brackets with mode := .escaped }
    else if char = '"' then { brackets with mode := .plain }
    else brackets
  | .escaped => { brackets with mode := .quoted }

def through (brackets : Brackets) (word : List Char) : Brackets :=
  word.foldl step brackets

def after (word : List Char) : Brackets :=
  through {} word

theorem through_append (brackets : Brackets) (word more : List Char) :
    brackets.through (word ++ more) = (brackets.through word).through more :=
  List.foldl_append

theorem through_cons (brackets : Brackets) (char : Char) (word : List Char) :
    brackets.through (char :: word) = (brackets.step char).through word := rfl

/-! ### The peak -/

theorem peak_step_le_iff (brackets : Brackets) (char : Char) (limit : Nat) :
    (brackets.step char).peak ≤ limit ↔
      brackets.peak ≤ limit ∧ (brackets.mode = .plain → Opens char → brackets.opened < limit) := by
  obtain ⟨mode, opened, peak⟩ := brackets
  cases mode with
  | plain =>
    by_cases quote : char = '"'
    · simp [step, quote, Opens]
    · by_cases opening : Opens char
      · simp only [step, quote, opening, if_true, if_false, Nat.max_le, true_implies]
        omega
      · by_cases closing : Closes char <;> simp [step, quote, opening, closing]
  | quoted =>
    by_cases slash : char = '\\'
    · simp [step, slash]
    · by_cases quote : char = '"' <;> simp [step, slash, quote]
  | escaped => simp [step]

/-- No more were ever open than a limit allows if each bracket that opens finds fewer open. -/
theorem peak_through_le_iff (brackets : Brackets) (word : List Char) (limit : Nat) :
    (brackets.through word).peak ≤ limit ↔
      brackets.peak ≤ limit ∧ ∀ before char behind, word = before ++ char :: behind →
        (brackets.through before).mode = .plain → Opens char → (brackets.through before).opened < limit := by
  induction word generalizing brackets with
  | nil => simp [through]
  | cons first word ih =>
    rw [through_cons, ih, peak_step_le_iff, and_assoc]
    apply and_congr_right
    intro low
    constructor
    · intro each before char behind same
      obtain ⟨now, later⟩ := each
      cases before with
      | nil =>
        obtain ⟨rfl, -⟩ := List.cons.inj same
        exact now
      | cons head before =>
        obtain ⟨rfl, tail⟩ := List.cons.inj same
        exact later before char behind tail
    · intro all
      constructor
      · exact all [] first word rfl
      · intro before char behind same
        exact all (first :: before) char behind (by rw [same]; rfl)

/-! ### Words of the syntax -/

open Syntax

/-- A word that leaves the count as it was and never has more than `room` brackets open. -/
def Calm (room : Nat) (word : List Char) : Prop :=
  ∀ brackets : Brackets, brackets.mode = .plain →
    ∃ peak, brackets.through word = { brackets with peak } ∧ peak ≤ max brackets.peak (brackets.opened + room)

theorem Calm.nil (room : Nat) : Calm room [] :=
  fun brackets _ => ⟨brackets.peak, rfl, Nat.le_max_left ..⟩

theorem Calm.append {room : Nat} {word more : List Char} (calm : Calm room word) (further : Calm room more) :
    Calm room (word ++ more) := by
  intro brackets plain
  obtain ⟨middle, same, low⟩ := calm brackets plain
  obtain ⟨peak, equal, under⟩ := further { brackets with peak := middle } plain
  refine ⟨peak, by rw [through_append, same, equal], ?_⟩
  simp only at under
  omega

def Still (char : Char) : Prop :=
  char ≠ '"' ∧ ¬Opens char ∧ ¬Closes char

instance (char : Char) : Decidable (Still char) :=
  inferInstanceAs (Decidable (char ≠ '"' ∧ ¬Opens char ∧ ¬Closes char))

theorem Calm.cons {room : Nat} {first : Char} {word : List Char} (still : Still first) (calm : Calm room word) :
    Calm room (first :: word) := by
  intro brackets plain
  obtain ⟨quote, opening, closing⟩ := still
  have same : brackets.step first = brackets := by simp [step, plain, quote, opening, closing]
  rw [through_cons, same]
  exact calm brackets plain

theorem calm_of_still {room : Nat} {word : List Char} (all : ∀ char ∈ word, Still char) : Calm room word := by
  induction word with
  | nil => exact .nil room
  | cons first word ih =>
    obtain ⟨still, others⟩ := List.forall_mem_cons.mp all
    exact .cons still (ih others)

/-- A container is one bracket more than what is inside it. -/
theorem Calm.bracket {room : Nat} {inside : List Char} {opener closer : Char} (calm : Calm room inside)
    (opening : Opens opener) (closing : Closes closer) : Calm (room + 1) (opener :: (inside ++ [closer])) := by
  intro brackets plain
  have begin : brackets.step opener =
      { brackets with opened := brackets.opened + 1, peak := max brackets.peak (brackets.opened + 1) } := by
    have quote : opener ≠ '"' := by rcases opening with rfl | rfl <;> decide
    simp [step, plain, quote, opening]
  obtain ⟨peak, same, low⟩ := calm (brackets.step opener) (by rw [begin]; exact plain)
  refine ⟨peak, ?_, ?_⟩
  · have quote : closer ≠ '"' := by rcases closing with rfl | rfl <;> decide
    have other : ¬Opens closer := by rcases closing with rfl | rfl <;> decide
    rw [through_cons, through_append, same, begin]
    simp [through, step, plain, quote, other, closing]
  · rw [begin] at low
    simp only at low
    omega

theorem unquoted_of_hex {char : Char} {value : Nat} (hex : Hex char value) : char ≠ '\\' ∧ char ≠ '"' := by
  have all : ∀ char ∈ lowerHex ++ upperHex, char ≠ '\\' ∧ char ≠ '"' := forall_mem_of_all (by decide)
  rcases hex with found | found
  · exact all char (List.mem_append_left _ (List.mem_of_getElem? found))
  · exact all char (List.mem_append_right _ (List.mem_of_getElem? found))

theorem through_item {brackets : Brackets} {word : List Char} {char : Char} (inside : brackets.mode = .quoted)
    (item : Item word char) : brackets.through word = brackets := by
  obtain ⟨mode, opened, peak⟩ := brackets
  obtain rfl : mode = .quoted := inside
  cases item with
  | plain unescaped unquoted => simp [through, step, unescaped, unquoted]
  | escape known => simp [through, step]
  | code hex1 hex2 hex3 hex4 decoded =>
    simp [through, step, unquoted_of_hex hex1, unquoted_of_hex hex2, unquoted_of_hex hex3, unquoted_of_hex hex4]

theorem through_body {brackets : Brackets} {word chars : List Char} (inside : brackets.mode = .quoted)
    (body : Body word chars) : brackets.through word = brackets := by
  induction body with
  | nil => rfl
  | cons first more ih => rw [through_append, through_item inside first, ih]

theorem calm_quoted {room : Nat} {word : List Char} {text : String} (quoted : Quoted word text) : Calm room word := by
  obtain ⟨body⟩ := quoted
  intro brackets plain
  refine ⟨brackets.peak, ?_, Nat.le_max_left ..⟩
  have enter : brackets.step '"' = { brackets with mode := .quoted } := by simp [step, plain]
  rw [through_cons, through_append, enter, through_body rfl body]
  simp [through, step, plain]

/-- The marks that count are in no class of characters that leaves them out. -/
theorem still_of_accepts {accepts : Char → Bool} {char : Char} (inside : accepts char = true)
    (outside : ∀ mark ∈ ['"', '[', '\x7b', ']', '\x7d'], accepts mark = false) : Still char := by
  have other : ∀ mark ∈ ['"', '[', '\x7b', ']', '\x7d'], char ≠ mark :=
    fun mark member => ne_of_accepts inside (outside mark member)
  simp only [List.mem_cons, List.not_mem_nil, or_false, forall_eq_or_imp, forall_eq] at other
  obtain ⟨quote, square, curly, square', curly'⟩ := other
  exact ⟨quote, not_or.mpr ⟨square, curly⟩, not_or.mpr ⟨square', curly'⟩⟩

theorem still_of_blank {char : Char} (blank : Text.isBlank char = true) : Still char :=
  still_of_accepts blank (forall_mem_of_all (by decide))

theorem still_of_digit {char : Char} (digit : char.isDigit = true) : Still char :=
  still_of_accepts digit (forall_mem_of_all (by decide))

theorem calm_blanks {room : Nat} {word : List Char} (blank : Blanks word) : Calm room word :=
  calm_of_still fun char member => still_of_blank (blank char member)

theorem calm_numeral {room : Nat} {word : List Char} (numeral : Numeral word) : Calm room word := by
  apply calm_of_still
  intro char inside
  have marks : ∀ char ∈ ['-', '+', '.', 'e', 'E'], Still char := forall_mem_of_all (by decide)
  rcases numeral.mem inside with digit | mark
  · exact still_of_digit digit
  · exact marks char mark

theorem calm_scalar {room : Nat} {word : List Char} {value : Json} (scalar : Scalar word value) : Calm room word := by
  cases scalar with
  | null => exact calm_of_still (forall_mem_of_all (by decide))
  | true => exact calm_of_still (forall_mem_of_all (by decide))
  | false => exact calm_of_still (forall_mem_of_all (by decide))
  | number numeral read finite => exact calm_numeral numeral
  | string quoted => exact calm_quoted quoted

section Lists

variable {α : Type} {Element : List Char → α → Prop} {room : Nat}
  (calm : ∀ word value, Element word value → Calm room word)

include calm

theorem calm_more {word : List Char} {values : List α} (more : More Element word values) : Calm room word := by
  induction more with
  | nil => exact .nil room
  | cons blank element more ih =>
    exact .cons (by decide) (((calm_blanks blank).append (calm _ _ element)).append ih)

theorem calm_listed {word : List Char} {values : List α} (listed : Listed Element word values) : Calm room word := by
  cases listed with
  | nil => exact .nil room
  | cons element more => exact (calm _ _ element).append (calm_more calm more)

end Lists

section Values

variable {Value : List Char → Json → Prop} {room : Nat} (calm : ∀ word value, Value word value → Calm room word)

include calm

theorem calm_spaced {word : List Char} {value : Json} (spaced : Spaced Value word value) : Calm room word := by
  obtain ⟨spelled, blank⟩ := spaced
  exact (calm _ _ spelled).append (calm_blanks blank)

theorem calm_member {word : List Char} {member : String × Json} (is : Member Value word member) : Calm room word := by
  obtain ⟨named, blank, blank', spelled, blank''⟩ := is
  have after := (calm_blanks blank').append ((calm _ _ spelled).append (calm_blanks blank''))
  exact ((calm_quoted named).append (calm_blanks blank)).append (.cons (by decide) after)

theorem calm_container {policy : DuplicateKeys} {word : List Char} {value : Json}
    (container : Container Value policy word value) : Calm (room + 1) word := by
  cases container with
  | array blank listed =>
    exact .bracket ((calm_blanks blank).append (calm_listed (fun _ _ => calm_spaced calm) listed)) (.inl rfl) (.inl rfl)
  | object blank listed =>
    exact .bracket ((calm_blanks blank).append (calm_listed (fun _ _ => calm_member calm) listed)) (.inr rfl) (.inr rfl)

end Values

/-- The word of a value opens no more brackets than it has room for, and closes them again. -/
theorem calm_value {policy : DuplicateKeys} {room : Nat} {word : List Char} {value : Json}
    (spelled : Syntax.Value policy room word value) : Calm room word := by
  induction room generalizing word value with
  | zero => exact calm_scalar spelled
  | succ room ih =>
    rcases spelled with scalar | container
    · exact calm_scalar scalar
    · exact calm_container (fun _ _ => ih) container

theorem peak_document {options : Options} {word : List Char} {value : Json} (document : Document options word value) :
    (after word).peak ≤ options.maxDepth := by
  obtain ⟨blank, spelled, blank'⟩ := document
  obtain ⟨peak, same, low⟩ := ((calm_blanks blank).append (calm_value spelled)).append (calm_blanks blank') {} rfl
  rw [after, same]
  simpa using low

end Brackets

end Caret.Json
