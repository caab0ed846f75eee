import Caret.Json.Printer
import Caret.Proofs.Json.Strict
import Caret.Proofs.Number.Printed

/-!
Printed values. Each character of a string is written as one item, each number as a numeral, and each container as its
brackets around the values inside, without blanks. So a printed value is a word of the strict syntax, and it stands for
the value itself as far as its numbers have literals. What holds of the pieces of printed values, and of words put
together, holds of them all: no control character occurs in them.
-/

namespace Caret.Json

open Syntax

/-! ### Strings -/

theorem hex_digitChar (digit : Nat) (small : digit < 16) : Hex digit.digitChar digit :=
  .inl ((show ∀ digit < 16, lowerHex[digit]? = some digit.digitChar by decide) digit small)

theorem hex4_of_small {code : Nat} (small : code < 256) :
    hex4 code = ['0', '0', (code / 16).digitChar, (code % 16).digitChar] := by
  unfold hex4
  by_cases short : code < 16
  · have high : code / 16 = 0 := by omega
    have low : code % 16 = code := by omega
    rw [Nat.toDigits_of_lt_base short, high, low]
    rfl
  · rw [Nat.toDigits_of_base_le (by decide) (by omega), Nat.toDigits_of_lt_base (by omega)]
    rfl

theorem toNat_lt_of_isControl {char : Char} (control : Text.isControl char = true) : char.toNat < 256 := by
  rw [Text.isControl_iff] at control
  omega

namespace Strict

/-- A character is written as one item that stands for it. -/
theorem item_escaped (char : Char) : Item (escaped char) char := by
  unfold escaped
  split
  case h_8 unquoted unescaped _ _ _ _ _ =>
    split
    · next control =>
      have small := toNat_lt_of_isControl control
      rw [hex4_of_small small]
      have zero := hex_digitChar 0 (by decide)
      have high := hex_digitChar (char.toNat / 16) (by omega)
      have low := hex_digitChar (char.toNat % 16) (by omega)
      exact .code zero zero high low (.inl (by omega))
    · next visible =>
      rw [Text.isControl_iff] at visible
      exact .plain (by omega) unescaped unquoted
  all_goals exact .escape (by decide)

theorem body_escaped (chars : List Char) : Body (chars.flatMap escaped) chars := by
  induction chars with
  | nil => exact .nil
  | cons char chars ih =>
    rw [List.flatMap_cons]
    exact .cons (item_escaped char) ih

theorem quoted_quoted (text : String) : Quoted (quoted text) text := by
  have body := Quoted.body (body_escaped text.toList)
  rwa [String.ofList_toList] at body

/-! ### Values -/

theorem scalar_number (number : Double) : Scalar (numberChars number) (Json.number number).nullified := by
  unfold numberChars nullified
  split
  · next finite => exact .number (Double.numeral_chars finite) (Double.ofText?_text finite) finite
  · exact .null

theorem blanks_nil : Blanks [] :=
  List.forall_mem_nil _

theorem spaced_of_element {α : Type} {Element : List Char → α → Prop} {word : List Char} {value : α}
    (spelled : Element word value) : Spaced Element word value := by
  have spaced := Spaced.mk blanks_nil spelled blanks_nil
  rwa [List.append_nil, List.nil_append] at spaced

section Containers

variable {Tree : List Char → Json → Prop}

theorem joined_items {item : Json} {rest : List Json}
    (each : ∀ item' ∈ item :: rest, Tree item'.chars item'.nullified) :
    Joined (Spaced Tree) (itemsChars (item :: rest)) (nullifiedItems (item :: rest)) := by
  induction rest generalizing item with
  | nil =>
    have one := Joined.one (spaced_of_element (each item List.mem_cons_self))
    rwa [← List.append_nil item.chars] at one
  | cons next rest ih =>
    obtain ⟨here, others⟩ := List.forall_mem_cons.mp each
    exact .more (spaced_of_element here) (ih others)

theorem inside_items {items : List Json} (each : ∀ item ∈ items, Tree item.chars item.nullified) :
    Inside (Spaced Tree) (itemsChars items) (nullifiedItems items) := by
  cases items with
  | nil => exact .blanks blanks_nil
  | cons item rest => exact .elements (joined_items each)

theorem member_of_tree (name : String) {word : List Char} {tree : Json} (spelled : Tree word tree) :
    Member Tree (quoted name ++ ':' :: word) (name, tree) :=
  .mk (spaced_of_element (quoted_quoted name)) (spaced_of_element spelled)

theorem joined_members {member : String × Json} {rest : List (String × Json)}
    (each : ∀ member' ∈ member :: rest, Tree member'.2.chars member'.2.nullified) :
    Joined (Member Tree) (membersChars (member :: rest)) (nullifiedMembers (member :: rest)) := by
  induction rest generalizing member with
  | nil =>
    have one := Joined.one (member_of_tree member.1 (each member List.mem_cons_self))
    rwa [← List.append_nil (quoted member.1 ++ ':' :: member.2.chars)] at one
  | cons next rest ih =>
    obtain ⟨here, others⟩ := List.forall_mem_cons.mp each
    exact .more (member_of_tree member.1 here) (ih others)

theorem inside_members {members : List (String × Json)}
    (each : ∀ member ∈ members, Tree member.2.chars member.2.nullified) :
    Inside (Member Tree) (membersChars members) (nullifiedMembers members) := by
  cases members with
  | nil => exact .blanks blanks_nil
  | cons member rest => exact .elements (joined_members each)

end Containers

/-- A value is printed as a strict word, in as much room as it is deep. -/
theorem written_chars {room : Nat} {value : Json} (deep : value.depth ≤ room) :
    Written room value.chars value.nullified := by
  induction value using induct generalizing room with
  | null => exact .of_scalar .null
  | bool value =>
    cases value with
    | false => exact .of_scalar .false
    | true => exact .of_scalar .true
  | number value => exact .of_scalar (scalar_number value)
  | string value => exact .of_scalar (.string (quoted_quoted value))
  | array items ih =>
    rw [depth] at deep
    obtain ⟨room, rfl⟩ : ∃ inner, room = inner + 1 := ⟨room - 1, by omega⟩
    have shallow := itemsDepth_le.mp (Nat.le_of_succ_le_succ deep)
    have each : ∀ item ∈ items, Written room item.chars item.nullified :=
      fun item inside => ih item inside (shallow item inside)
    exact .inr (.array (inside_items each))
  | object members ih =>
    rw [depth] at deep
    obtain ⟨room, rfl⟩ : ∃ inner, room = inner + 1 := ⟨room - 1, by omega⟩
    have shallow := membersDepth_le.mp (Nat.le_of_succ_le_succ deep)
    have each : ∀ member ∈ members, Written room member.2.chars member.2.nullified :=
      fun member inside => ih member inside (shallow member inside)
    exact .inr (.object (inside_members each))

end Strict

/-- A value is printed as a word of the syntax under either policy, in as much room as the value is deep. -/
theorem value_chars {policy : DuplicateKeys} {room : Nat} {value : Json} (ordered : value.Ordered)
    (deep : value.depth ≤ room) : Syntax.Value policy room value.chars value.nullified := by
  have order := ordered.nullified
  exact (value_iff _ _).mpr ⟨value.nullified, (Strict.written_chars deep).lenient 0, fun _ => order.distinct,
    gathered_of_ordered order⟩

/-! ### Piece by piece -/

/-- Holds of the pieces that printed values are put together from, and of words put together. -/
structure Composes (holds : List Char → Prop) : Prop where
  nil : holds []
  append {front back : List Char} : holds front → holds back → holds (front ++ back)
  marks : ∀ mark ∈ [',', ':', '[', ']', '\x7b', '\x7d'], holds [mark]
  null : holds ['n', 'u', 'l', 'l']
  bools (value : Bool) : holds (bool value).chars
  numbers {number : Double} (finite : number.isFinite = true) : holds number.chars
  strings (text : String) : holds (quoted text)

namespace Composes

variable {holds : List Char → Prop} (composes : Composes holds)

include composes

theorem cons {mark : Char} {word : List Char} (known : mark ∈ [',', ':', '[', ']', '\x7b', '\x7d'])
    (rest : holds word) : holds (mark :: word) :=
  composes.append (composes.marks mark known) rest

theorem moreItems {items : List Json} (each : ∀ item ∈ items, holds item.chars) : holds (moreItemsChars items) := by
  induction items with
  | nil => exact composes.nil
  | cons item rest ih =>
    obtain ⟨here, others⟩ := List.forall_mem_cons.mp each
    exact composes.append (composes.cons (by decide) here) (ih others)

theorem items {items : List Json} (each : ∀ item ∈ items, holds item.chars) : holds (itemsChars items) := by
  cases items with
  | nil => exact composes.nil
  | cons item rest =>
    obtain ⟨here, others⟩ := List.forall_mem_cons.mp each
    exact composes.append here (composes.moreItems others)

theorem member (name : String) {word : List Char} (here : holds word) : holds (quoted name ++ ':' :: word) :=
  composes.append (composes.strings name) (composes.cons (by decide) here)

theorem moreMembers {members : List (String × Json)} (each : ∀ member ∈ members, holds member.2.chars) :
    holds (moreMembersChars members) := by
  induction members with
  | nil => exact composes.nil
  | cons member rest ih =>
    obtain ⟨name, value⟩ := member
    obtain ⟨here, others⟩ := List.forall_mem_cons.mp each
    exact composes.append (composes.cons (by decide) (composes.member name here)) (ih others)

theorem members {members : List (String × Json)} (each : ∀ member ∈ members, holds member.2.chars) :
    holds (membersChars members) := by
  cases members with
  | nil => exact composes.nil
  | cons member rest =>
    obtain ⟨name, value⟩ := member
    obtain ⟨here, others⟩ := List.forall_mem_cons.mp each
    exact composes.append (composes.member name here) (composes.moreMembers others)

theorem chars (value : Json) : holds value.chars := by
  induction value using induct with
  | null => exact composes.null
  | bool value => exact composes.bools value
  | number value =>
    unfold Json.chars numberChars
    split
    · next finite => exact composes.numbers finite
    · exact composes.null
  | string value => exact composes.strings value
  | array items ih => exact composes.append (composes.cons (by decide) (composes.items ih)) (composes.marks _ (by decide))
  | object members ih =>
    exact composes.append (composes.cons (by decide) (composes.members ih)) (composes.marks _ (by decide))

end Composes

/-! ### Control characters -/

def Clean (word : List Char) : Prop :=
  ∀ char ∈ word, Text.isControl char = false

instance (word : List Char) : Decidable (Clean word) :=
  List.decidableBAll (fun char => Text.isControl char = false) word

theorem Clean.append {front back : List Char} (first : Clean front) (second : Clean back) : Clean (front ++ back) :=
  List.forall_mem_append.mpr ⟨first, second⟩

theorem Clean.cons {char : Char} {word : List Char} (visible : Text.isControl char = false) (rest : Clean word) :
    Clean (char :: word) :=
  List.forall_mem_cons.mpr ⟨visible, rest⟩

theorem clean_escaped (char : Char) : Clean (escaped char) := by
  have digits : ∀ digit < 16, Text.isControl digit.digitChar = false := by decide
  unfold escaped
  split
  case h_8 =>
    split
    · next control =>
      have small := toNat_lt_of_isControl control
      rw [hex4_of_small small]
      have last : Clean [(char.toNat / 16).digitChar, (char.toNat % 16).digitChar] :=
        .cons (digits _ (by omega)) (.cons (digits _ (by omega)) (by decide))
      have first : Clean ['\\', 'u', '0', '0'] := by decide
      exact first.append last
    · next visible => exact .cons (by simpa using visible) (by decide)
  all_goals decide

theorem clean_quoted (text : String) : Clean (quoted text) := by
  have inside : Clean (text.toList.flatMap escaped) := by
    intro char member
    obtain ⟨source, _, member⟩ := List.mem_flatMap.mp member
    exact clean_escaped source char member
  exact .append (.cons (by decide) inside) (by decide)

theorem isControl_of_isDigit {char : Char} (digit : char.isDigit = true) : Text.isControl char = false := by
  simp only [Char.isDigit, Bool.and_eq_true, decide_eq_true_eq, ge_iff_le, UInt32.le_iff_toNat_le] at digit
  have low : 48 ≤ char.toNat := digit.1
  have high : char.toNat ≤ 57 := digit.2
  rw [Bool.eq_false_iff, ne_eq, Text.isControl_iff]
  omega

theorem clean_numeral {word : List Char} (numeral : Numeral word) : Clean word := by
  intro char inside
  have marks : ∀ char ∈ ['-', '+', '.', 'e', 'E'], Text.isControl char = false := forall_mem_of_all (by decide)
  rcases numeral.mem inside with digit | mark
  · exact isControl_of_isDigit digit
  · exact marks char mark

/-- A printed value stands on one line, whatever its strings contain. -/
theorem clean_chars (value : Json) : Clean value.chars := by
  have closed : Composes Clean :=
    { nil := by decide
      append := .append
      marks := forall_mem_of_all (by decide)
      null := by decide
      bools := by decide
      numbers := fun finite => clean_numeral (Double.numeral_chars finite)
      strings := clean_quoted }
  exact closed.chars value

end Caret.Json
