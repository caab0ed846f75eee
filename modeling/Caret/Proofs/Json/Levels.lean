import Caret.Proofs.Json.Acceptance
import Caret.Proofs.Json.Linking
import Caret.Proofs.Lines

/-!
How deep a reading goes. Every container of the grammar opens with its bracket before it comes to a value, so the gauge
counts the containers around each moment of a reading; one container may be tried past the limit, but not opened.
-/

namespace Caret.Json

open Caret.Parser

section Rules

variable {Ref : Type → Type} {value : Parser Ref Json} {policy : DuplicateKeys}

theorem opens_arrayRule : (arrayRule value).rule.Opens '[' :=
  opens_map (opens_between (opens_keepLeft (opens_char '['))) array

/-- Only blanks stand before the bracket that opens an object. -/
theorem opens_objectRule : (objectRule value policy).rule.Opens '\x7b' :=
  opens_map (opens_between (opens_keepRight (.inr ⟨skips_spaces, opens_keepLeft (opens_char '\x7b')⟩))) object

variable (link : Ref Json) (gauge : Nat) (options : Options)

theorem allowed_shelter : Allowed (.shelter gauge options.maxDepth) (forward "value" link) gauge options where
  blanks := trivial
  digits := trivial
  characters := trivial
  items := trivial
  members := trivial
  again _ := trivial
  arrays := ⟨rfl, rfl, by decide, opens_arrayRule⟩
  objects := ⟨rfl, rfl, by decide, opens_objectRule⟩

theorem sheltered_alternatives :
    (Grammar.ofLink link gauge options).alternatives.rule.Sheltered gauge options.maxDepth :=
  Rule.sheltered_iff.mpr (allowed_shelter link gauge options).alternatives

theorem sheltered_document :
    (Grammar.ofLink link gauge options).document.rule.Sheltered gauge options.maxDepth :=
  Rule.sheltered_iff.mpr (allowed_shelter link gauge options).document

end Rules

/-! ### Readings -/

section Readings

def Grammar.moments {Ref : Type → Type} (grammar : Grammar Ref) (wiring : Wiring Ref) (text : String)
    (gauges : Gauges) : List Moment :=
  let input := Input.ofText text
  grammar.document.rule.moments (wiring.follow (wiring.budget input)) (wiring.watch (wiring.budget input)) [] input
    (gauges.modify grammar.gauge Nesting.forget)

variable {text : String} {options : Options} {gauges : Gauges}

theorem Grammar.fits_of_mem_moments (level : (gauges.get 0).depth = 0) {moment : Moment}
    (member : moment ∈ (Grammar.ofOptions options).moments (Grammar.ofOptions options).wiring text gauges) :
    moment.Fits 0 options.maxDepth (Input.ofText text).ahead.length := by
  have wired : ∀ {α : Type} (ref : Link α) (rule : Rule Link α),
      (Grammar.ofOptions options).wiring.target ref = some rule → rule.Sheltered 0 options.maxDepth := by
    intro α ref rule found
    cases ref with
    | value =>
      cases found
      exact sheltered_alternatives Link.value 0 options
  have start : Inside 0 options.maxDepth (Input.ofText text).ahead.length [] (Input.ofText text)
      (gauges.modify 0 Nesting.forget) := by
    refine ⟨?_, Nat.zero_le _, by simp, by simp⟩
    rw [Gauges.depths_forget]
    exact level
  have sheltered : (Grammar.ofOptions options).document.rule.Sheltered 0 options.maxDepth :=
    sheltered_document Link.value 0 options
  exact (sheltered.fits_moments (Wiring.fits_watch wired _)).1 [] _ _ start moment member

/-- A reading ends with a value or an error of the text. At every moment of it the gauge counts the containers around,
one past the limit at most and never past a word; where a value is read it counts no more than the limit, and the value
is past the beginning of the container around it. No more containers than the limit have been opened. And the moments
are all there is to a reading: it comes to the same for whoever reads values as the grammar does at these moments. -/
theorem read_within (text : String) (options : Options) (gauges : Gauges) (level : (gauges.get 0).depth = 0) :
    let grammar := Grammar.ofOptions options
    ((∃ value, (grammar.read grammar.wiring text gauges).result = .ok value) ∨
      (∃ failure, (grammar.read grammar.wiring text gauges).result = .error (.malformed failure)) ∨
      ∃ failure, (grammar.read grammar.wiring text gauges).result = .error (.tooDeep options.maxDepth failure)) ∧
    (∀ moment ∈ grammar.moments grammar.wiring text gauges,
      (moment.gauges.get 0).depth = moment.around.length ∧
      (moment.gauges.get 0).depth ≤ options.maxDepth + 1 ∧
      (text.length < 2 ^ 63 → (moment.gauges.get 0).depth < 2 ^ 64) ∧
      (moment.follows = true → (moment.gauges.get 0).depth ≤ options.maxDepth ∧
        ∀ container ∈ moment.around.head?, moment.input.After container) ∧
      moment.around.countP moment.input.entered ≤ options.maxDepth) ∧
    ∀ others : Nat → Follow Link,
      (∀ moment ∈ grammar.moments grammar.wiring text gauges, moment.follows = true →
        grammar.wiring.Heeds others moment.input moment.gauges) →
      let input := Input.ofText text
      let cleared := gauges.modify grammar.gauge Nesting.forget
      grammar.document.rule.run (others (grammar.wiring.budget input)) input cleared =
        grammar.document.parse grammar.wiring input cleared := by
  intro grammar
  refine ⟨?_, ?_, fun others heeds => Wiring.run_eq_of_heeds _ _ [] _ _ heeds⟩
  · have settles := grammar.read_settles grammar.wiring text gauges
    have sound := Grammar.sound_document options (grammar.wiring.length_lt_budget (Input.ofText text)) gauges.depths
    generalize (grammar.read grammar.wiring text gauges).result = result at settles ⊢
    cases settles with
    | @accepted value => exact .inl ⟨value, rfl⟩
    | @malformed stop failure => exact .inr (.inl ⟨failure, rfl⟩)
    | @tooDeep stop refusal failure => exact .inr (.inr ⟨failure, rfl⟩)
    | @broken fault broke => exact absurd broke (sound fault)
  · intro moment member
    have fits := Grammar.fits_of_mem_moments level member
    have tokens := Input.length_ahead_ofChars_le text.toList
    have taken := fits.taken
    rw [fits.counted]
    refine ⟨rfl, fits.level, fun short => ?_, fits.followed, fits.entered⟩
    change (Input.ofText text).ahead.length ≤ text.length + 1 at tokens
    omega

/-- Where one array may be open, a value is read past its bracket, and another array is tried there but not opened. -/
theorem read_within_bracket :
    let grammar := Grammar.ofOptions ⟨.reject, 1⟩
    (∃ moment ∈ grammar.moments grammar.wiring "[x]" [], ∃ container ∈ moment.around.head?,
      moment.input.After container) ∧
    ∃ moment ∈ grammar.moments grammar.wiring "[x]" [], (moment.gauges.get 0).depth = 2 ∧
      (moment.gauges.get 0).depth < 2 ^ 64 ∧ moment.around.countP moment.input.entered ≤ 1 := by
  intro grammar
  have within := (read_within "[x]" ⟨.reject, 1⟩ [] rfl).2.1
  constructor
  · have some : ((grammar.moments grammar.wiring "[x]" []).find? fun moment =>
        moment.follows && moment.around.head?.isSome).isSome = true := by decide +kernel
    obtain ⟨moment, found⟩ := Option.isSome_iff_exists.mp some
    have picked := List.find?_some found
    rw [Bool.and_eq_true, Option.isSome_iff_exists] at picked
    obtain ⟨follows, container, head⟩ := picked
    have member := List.mem_of_find?_eq_some found
    exact ⟨moment, member, container, head, ((within moment member).2.2.2.1 follows).2 container head⟩
  · have some : ((grammar.moments grammar.wiring "[x]" []).find? fun moment =>
        (moment.gauges.get 0).depth == 2).isSome = true := by decide +kernel
    obtain ⟨moment, found⟩ := Option.isSome_iff_exists.mp some
    have member := List.mem_of_find?_eq_some found
    have picked := List.find?_some found
    have past : (moment.gauges.get 0).depth = 2 := eq_of_beq picked
    have word : (moment.gauges.get 0).depth < 2 ^ 64 := (within moment member).2.2.1 (by decide)
    have few : moment.around.countP moment.input.entered ≤ 1 := (within moment member).2.2.2.2
    exact ⟨moment, member, past, word, few⟩

end Readings

end Caret.Json
