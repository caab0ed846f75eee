import Caret.Proofs.Json.Written

/-!
The strict syntax of documents, as it is agreed on between all readers: four characters are blank, no string holds a raw
character below the space, and blanks stand only around brackets, colons, commas and whole documents. Every strict
document is a document here, with the same tree, so the strict syntax is unambiguous too.
-/

namespace Caret.Json.Strict

def Blanks (word : List Char) : Prop :=
  ∀ char ∈ word, char ∈ [' ', '\t', '\n', '\r']

/-! ### Strings -/

inductive Item : List Char → Char → Prop
  | plain {char : Char} (raised : 0x20 ≤ char.toNat) (unescaped : char ≠ '\\') (unquoted : char ≠ '"') :
    Item [char] char
  | escape {letter char : Char} (known : (letter, char) ∈ Syntax.escapes) : Item ['\\', letter] char
  | code {first second third fourth char : Char} {thousands hundreds tens ones : Nat}
    (hex1 : Syntax.Hex first thousands) (hex2 : Syntax.Hex second hundreds) (hex3 : Syntax.Hex third tens)
    (hex4 : Syntax.Hex fourth ones)
    (decoded : Syntax.Decoded (((thousands * 16 + hundreds) * 16 + tens) * 16 + ones) char) :
    Item ['\\', 'u', first, second, third, fourth] char

inductive Body : List Char → List Char → Prop
  | nil : Body [] []
  | cons {item word chars : List Char} {char : Char} (first : Item item char) (more : Body word chars) :
    Body (item ++ word) (char :: chars)

inductive Quoted : List Char → String → Prop
  | body {word chars : List Char} (inside : Body word chars) : Quoted ('"' :: (word ++ ['"'])) (String.ofList chars)

/-! ### Values -/

inductive Scalar : List Char → Json → Prop
  | null : Scalar ['n', 'u', 'l', 'l'] .null
  | true : Scalar ['t', 'r', 'u', 'e'] (.bool true)
  | false : Scalar ['f', 'a', 'l', 's', 'e'] (.bool false)
  | number {word : List Char} {value : Double} (numeral : Syntax.Numeral word)
    (read : Double.ofText? (String.ofList word) = some value) (finite : value.isFinite = Bool.true) :
    Scalar word (.number value)
  | string {word : List Char} {text : String} (quoted : Quoted word text) : Scalar word (.string text)

section Lists

variable {α : Type} (Element : List Char → α → Prop)

inductive Spaced : List Char → α → Prop
  | mk {before word after : List Char} {value : α} (blank : Blanks before) (spelled : Element word value)
    (blank' : Blanks after) : Spaced (before ++ word ++ after) value

inductive Joined : List Char → List α → Prop
  | one {word : List Char} {value : α} (element : Element word value) : Joined word [value]
  | more {word rest : List Char} {value : α} {values : List α} (element : Element word value)
    (joined : Joined rest values) : Joined (word ++ ',' :: rest) (value :: values)

inductive Inside : List Char → List α → Prop
  | blanks {word : List Char} (blank : Blanks word) : Inside word []
  | elements {word : List Char} {values : List α} (joined : Joined Element word values) : Inside word values

end Lists

section Containers

variable (Tree : List Char → Json → Prop)

inductive Member : List Char → String × Json → Prop
  | mk {name word : List Char} {text : String} {tree : Json} (named : Spaced Quoted name text)
    (spelled : Spaced Tree word tree) : Member (name ++ ':' :: word) (text, tree)

inductive Container : List Char → Json → Prop
  | array {word : List Char} {items : List Json} (inside : Inside (Spaced Tree) word items) :
    Container ('[' :: (word ++ [']'])) (.array items)
  | object {word : List Char} {members : List (String × Json)} (inside : Inside (Member Tree) word members) :
    Container ('\x7b' :: (word ++ ['\x7d'])) (.object members)

end Containers

/-- The strict words that open at most `room` containers at once, and the trees that they spell. -/
def Written : Nat → List Char → Json → Prop
  | 0, word, tree => Scalar word tree
  | room + 1, word, tree => Scalar word tree ∨ Container (Written room) word tree

theorem Written.of_scalar {room : Nat} {word : List Char} {tree : Json} (scalar : Scalar word tree) :
    Written room word tree := by
  cases room with
  | zero => exact scalar
  | succ room => exact .inl scalar

def Document (word : List Char) (tree : Json) : Prop :=
  ∃ room, Spaced (Written room) word tree

/-! ### Strict documents are documents -/

theorem Blanks.lenient {word : List Char} (blank : Blanks word) : Syntax.Blanks word := by
  have all : ∀ char ∈ [' ', '\t', '\n', '\r'], Text.isBlank char = true := forall_mem_of_all (by decide)
  exact fun char inside => all char (blank char inside)

theorem Item.lenient {word : List Char} {char : Char} (item : Item word char) : Syntax.Item word char := by
  cases item with
  | plain raised unescaped unquoted => exact .plain unescaped unquoted
  | escape known => exact .escape known
  | code hex1 hex2 hex3 hex4 decoded => exact .code hex1 hex2 hex3 hex4 decoded

theorem Body.lenient {word chars : List Char} (body : Body word chars) : Syntax.Body word chars := by
  induction body with
  | nil => exact .nil
  | cons first more ih => exact .cons first.lenient ih

theorem Quoted.lenient {word : List Char} {text : String} (quoted : Quoted word text) : Syntax.Quoted word text := by
  obtain ⟨body⟩ := quoted
  exact .body body.lenient

theorem Scalar.lenient {word : List Char} {tree : Json} (scalar : Scalar word tree) : Syntax.Scalar word tree := by
  cases scalar with
  | null => exact .null
  | true => exact .true
  | false => exact .false
  | number numeral read finite => exact .number numeral read finite
  | string quoted => exact .string quoted.lenient

def Indented {α : Type} (Element : List Char → α → Prop) (word : List Char) (value : α) : Prop :=
  ∃ blanks core, word = blanks ++ core ∧ Syntax.Blanks blanks ∧ Element core value

section Lists

variable {α : Type} {Element Lenient : List Char → α → Prop}
  (each : ∀ word value, Element word value → Indented Lenient word value)

include each

theorem more_of_joined {word : List Char} {values : List α} (joined : Joined Element word values) :
    Syntax.More Lenient (',' :: word) values := by
  induction joined with
  | one element =>
    obtain ⟨blanks, core, rfl, blank, lenient⟩ := each _ _ element
    have more := Syntax.More.cons blank lenient .nil
    rwa [List.append_nil] at more
  | more element joined ih =>
    obtain ⟨blanks, core, rfl, blank, lenient⟩ := each _ _ element
    exact .cons blank lenient ih

theorem listed_of_joined {word : List Char} {values : List α} (joined : Joined Element word values) :
    Indented (Syntax.Listed Lenient) word values := by
  cases joined with
  | one element =>
    obtain ⟨blanks, core, rfl, blank, lenient⟩ := each _ _ element
    have listed := Syntax.Listed.cons lenient .nil
    rw [List.append_nil] at listed
    exact ⟨blanks, core, rfl, blank, listed⟩
  | more element joined =>
    obtain ⟨blanks, core, rfl, blank, lenient⟩ := each _ _ element
    exact ⟨blanks, _, List.append_assoc .., blank, .cons lenient (more_of_joined each joined)⟩

theorem listed_of_inside {word : List Char} {values : List α} (inside : Inside Element word values) :
    Indented (Syntax.Listed Lenient) word values := by
  cases inside with
  | blanks blank => exact ⟨word, [], (List.append_nil word).symm, blank.lenient, .nil⟩
  | elements joined => exact listed_of_joined each joined

end Lists

section Containers

variable {Tree Lenient : List Char → Json → Prop} (each : ∀ word tree, Tree word tree → Lenient word tree)

include each

theorem Spaced.lenient {word : List Char} {tree : Json} (spaced : Spaced Tree word tree) :
    Indented (Syntax.Spaced Lenient) word tree := by
  obtain ⟨blank, spelled, blank'⟩ := spaced
  exact ⟨_, _, List.append_assoc .., blank.lenient, .mk (each _ _ spelled) blank'.lenient⟩

theorem Member.lenient {word : List Char} {member : String × Json} (is : Member Tree word member) :
    Indented (Syntax.Member Lenient) word member := by
  obtain ⟨⟨blank, named, before⟩, ⟨after, spelled, last⟩⟩ := is
  have lenient := Syntax.Member.mk named.lenient before.lenient after.lenient (each _ _ spelled) last.lenient
  exact ⟨_, _, by simp only [List.append_assoc], blank.lenient, lenient⟩

theorem Container.lenient {word : List Char} {tree : Json} (container : Container Tree word tree) :
    Syntax.Frame Lenient word tree := by
  cases container with
  | array inside =>
    obtain ⟨blanks, core, rfl, blank, listed⟩ := listed_of_inside (fun _ _ => Spaced.lenient each) inside
    exact .array blank listed
  | object inside =>
    obtain ⟨blanks, core, rfl, blank, listed⟩ := listed_of_inside (fun _ _ => Member.lenient each) inside
    exact .object blank listed

end Containers

/-- A strict word is a word in the same room, and in any larger one. -/
theorem Written.lenient {room : Nat} {word : List Char} {tree : Json} (written : Written room word tree)
    (extra : Nat) : Syntax.Written (room + extra) word tree := by
  induction room generalizing word tree with
  | zero =>
    cases extra with
    | zero => exact Scalar.lenient written
    | succ extra => exact .inl (Scalar.lenient written)
  | succ room ih =>
    rw [Nat.add_right_comm]
    rcases written with scalar | container
    · exact .inl scalar.lenient
    · exact .inr (container.lenient fun _ _ inside => ih inside)

theorem Spaced.document {room : Nat} {word : List Char} {tree : Json} (spaced : Spaced (Written room) word tree)
    (extra : Nat) : Syntax.WrittenDocument (room + extra) word tree := by
  obtain ⟨blank, written, blank'⟩ := spaced
  exact .mk blank.lenient (written.lenient extra) blank'.lenient

/-- A strict document spells one tree. -/
theorem Document.unique {word : List Char} {tree other : Json} (document : Document word tree)
    (document' : Document word other) : tree = other := by
  obtain ⟨room, spaced⟩ := document
  obtain ⟨room', spaced'⟩ := document'
  have lenient := spaced.document room'
  have lenient' := spaced'.document room
  rw [Nat.add_comm] at lenient'
  exact lenient.unique lenient'

end Caret.Json.Strict
