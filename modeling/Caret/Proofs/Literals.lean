import Caret.Proofs.Combinators
import Caret.Proofs.Diagnostics

/-!
Text that is looked for. Its characters are compared with the tokens ahead, one by one, so it is found if it is a
front of them; and else the two part after the longest front that they have in common, which may end on a later line
than it began.
-/

namespace Caret

/-- A front of both lists that is as long as any. -/
structure Common (word ahead common : List Char) : Prop where
  front : common <+: word
  within : common <+: ahead
  most : ∀ other, other <+: word → other <+: ahead → other.length ≤ common.length

namespace Common

variable {word ahead common other : List Char}

theorem unique (longest : Common word ahead common) (too : Common word ahead other) : other = common := by
  have size : other.length = common.length :=
    Nat.le_antisymm (longest.most other too.front too.within) (too.most common longest.front longest.within)
  exact (List.prefix_of_prefix_length_le too.front longest.front (Nat.le_of_eq size)).eq_of_length size

/-- Where a character of the word is left, the word is no front of what is ahead. -/
theorem not_front {char : Char} {more : List Char} (longest : Common word ahead common)
    (left : word = common ++ char :: more) : ¬word <+: ahead := by
  intro front
  have most := longest.most word (List.prefix_refl word) front
  rw [left, List.length_append, List.length_cons] at most
  omega

theorem cons (longest : Common word ahead common) (char : Char) :
    Common (char :: word) (char :: ahead) (char :: common) where
  front := List.cons_prefix_cons.mpr ⟨rfl, longest.front⟩
  within := List.cons_prefix_cons.mpr ⟨rfl, longest.within⟩
  most other front within := by
    cases other with
    | nil => exact Nat.zero_le _
    | cons head other =>
      have shorter := longest.most other (List.cons_prefix_cons.mp front).2 (List.cons_prefix_cons.mp within).2
      exact Nat.succ_le_succ shorter

/-- What begins differently has nothing in common. -/
theorem nil (different : ∀ token ∈ ahead.head?, token ∉ word.head?) : Common word ahead [] where
  front := List.nil_prefix
  within := List.nil_prefix
  most other front within := by
    cases other with
    | nil => exact Nat.le_refl 0
    | cons head other =>
      obtain ⟨rest, rfl⟩ := front
      obtain ⟨others, rfl⟩ := within
      exact absurd rfl (different head rfl)

end Common

/-- By induction along both: a word that is no front of the tokens has a character where they part, and what is ahead of
them there is not this character. -/
theorem exists_common {word ahead : List Char} (other : ¬word <+: ahead) : ∃ common char more,
    Common word ahead common ∧ word = common ++ char :: more ∧ ahead = common ++ afterCommon word ahead ∧
      char ∉ (afterCommon word ahead).head? := by
  induction word generalizing ahead with
  | nil => exact absurd List.nil_prefix other
  | cons char word ih =>
    cases ahead with
    | nil => exact ⟨[], char, word, .nil nofun, rfl, rfl, nofun⟩
    | cons token ahead =>
      by_cases same : token = char
      · subst same
        obtain ⟨common, next, more, longest, left, cut, different⟩ :=
          ih fun front => other (List.cons_prefix_cons.mpr ⟨rfl, front⟩)
        rw [afterCommon, if_pos rfl]
        exact ⟨token :: common, next, more, longest.cons token, by rw [left, List.cons_append],
          by rw [List.cons_append, ← cut], different⟩
      · have different : char ∉ (token :: ahead).head? := fun found => same (Option.some.inj found)
        rw [afterCommon, if_neg same]
        refine ⟨[], char, word, .nil ?_, rfl, rfl, different⟩
        rintro head found again
        exact different (Option.mem_some.mp again ▸ found)

namespace Parser

variable {Ref : Type → Type}

/-- The replies to a text that is looked for. If it is a front of what is ahead, it is taken, with as many tokens as it
has characters; and else the failure is past the longest common front, for the end of the input or the token there. -/
inductive Matched (expected : String) (input : Input) : Reply String → Prop
  | taken (front : expected.toList <+: input.tokens) :
    Matched expected input (.accept expected (input.advance expected.toList.length))
  | ended {common more : List Char} {char : Char} (longest : Common expected.toList input.tokens common)
    (left : expected.toList = common ++ char :: more) (ended : input.tokens = common) :
    Matched expected input (.reject ⟨expected, .noMoreInput, (input.advance common.length).snapshot⟩)
  | differs {common more rest : List Char} {char token : Char} (longest : Common expected.toList input.tokens common)
    (left : expected.toList = common ++ char :: more) (cut : input.tokens = common ++ token :: rest)
    (different : token ≠ char) :
    Matched expected input (.reject ⟨expected, .unexpected token, (input.advance common.length).snapshot⟩)

theorem Matched.unique {expected : String} {input : Input} {reply other : Reply String}
    (matched : Matched expected input reply) (too : Matched expected input other) : other = reply := by
  cases matched with
  | taken front =>
    cases too with
    | taken => rfl
    | ended longest left | differs longest left => exact absurd front (longest.not_front left)
  | ended longest left ended =>
    cases too with
    | taken front => exact absurd front (longest.not_front left)
    | ended longest' => rw [longest.unique longest']
    | differs longest' _ cut =>
      rw [longest.unique longest', ended] at cut
      exact absurd cut (by simp)
  | differs longest left cut =>
    cases too with
    | taken front => exact absurd front (longest.not_front left)
    | ended longest' _ ended =>
      rw [longest.unique longest', cut] at ended
      exact absurd ended (by simp)
    | differs longest' _ cut' =>
      rw [longest.unique longest', cut] at cut'
      rw [longest.unique longest', (List.cons.inj (List.append_cancel_left cut')).1]

theorem matched_of_places {expected : String} {input : Input} {reply : Reply String} (ask : Ask Ref) (depths : Depths)
    (places : ((text expected).trace ask depths input.ahead).answer.Places input reply) :
    Matched expected input reply := by
  rw [trace_text] at places
  by_cases front : expected.toList <+: input.ahead
  · rw [if_pos front, ← Input.ahead_advance] at places
    rw [places.eq_accept (input.leads_advance _)]
    exact .taken (input.tokens_eq_ahead ▸ front)
  · obtain ⟨common, char, more, longest, left, cut, different⟩ := exists_common front
    have there := Input.ahead_advance_of_append cut
    rw [if_neg front, ← there] at places
    rw [places.eq_reject (input.leads_advance _), Failure.here]
    rw [← there] at cut different
    rw [← Input.tokens_eq_ahead] at longest cut
    cases taken : (input.advance common.length).next? with
    | none =>
      rw [Input.next?_eq_none.mp taken, List.append_nil] at cut
      exact .ended longest left cut
    | some next =>
      rw [Input.ahead_of_next? taken] at cut different
      exact .differs longest left cut fun same => different (congrArg Option.some same)

/-- Text is taken just if its characters are a front of the tokens ahead, a line feed at the end of each line being one
of them; and else the place and the reason of the failure are those where the two first differ. -/
theorem text_matched (wiring : Wiring Ref) (expected : String) (input : Input) (gauges : Gauges) :
    ((∃ value rest, ((text expected).parse wiring input gauges).reply = .accept value rest) ↔
      expected.toList <+: input.tokens) ∧
    ∀ reply, ((text expected).parse wiring input gauges).reply = reply ↔ Matched expected input reply := by
  have matched : Matched expected input ((text expected).parse wiring input gauges).reply :=
    matched_of_places _ gauges.depths ((text expected).parse_agrees wiring input gauges).reply
  refine ⟨⟨?_, fun front => ⟨_, _, (matched.unique (.taken front)).symm⟩⟩,
    fun reply => ⟨fun same => same ▸ matched, fun too => too.unique matched⟩⟩
  rintro ⟨value, rest, accepted⟩
  rw [accepted] at matched
  cases matched with
  | taken front => exact front

/-- The text goes on over a line end, and parts from the second line at its second character. -/
example : let wiring : Wiring (fun _ => Empty) := ⟨nofun, 0⟩
    ((text "a\nbc").parse wiring (Input.ofText "a\r\nbd") []).reply =
      .reject ⟨"a\nbc", .unexpected 'd', ⟨#['b', 'd'], ⟨1, 1⟩⟩⟩ := rfl

end Parser

end Caret
