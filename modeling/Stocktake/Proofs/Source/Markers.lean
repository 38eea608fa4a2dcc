import Stocktake.Proofs.Source.LineEnding
import Stocktake.Proofs.Text.Packing

/-! The markers of a source text tell which words stand somewhere in it, and how many directives can
be chosen from it without an overlap. -/

namespace Stocktake

/-- A word occurs in a text when it is a part of that text. -/
theorem occursIn_iff {word text : List Char} : occursIn word text = true ↔ word <:+: text := by
  induction text with
  | nil => rw [occursIn, List.isEmpty_iff, List.infix_nil]
  | cons c text ih =>
    -- The word stands at the front, or somewhere behind the first character.
    rw [occursIn, Bool.or_eq_true, ih, List.isPrefixOf_iff_prefix, List.infix_cons_iff]

/-- A search finds something when an item stands at some position of the text. -/
theorem Recogniser.findAll_ne_nil_iff {α : Type} {recogniser : Recogniser α} {text : List Char} :
    recogniser.findAll text ≠ [] ↔ ∃ rest, rest <:+ text ∧ (recogniser.front? rest).isSome := by
  induction text with
  | nil =>
    -- An item takes up room, so that there is none in an empty text.
    have nothing : recogniser.front? [] = none := by
      cases read : recogniser.front? [] with
      | none => rfl
      | some found => exact absurd (recogniser.shorter read) (Nat.not_lt_zero _)
    simp [findAll, findFrom, nothing]
  | cons c text ih =>
    rw [findAll_cons]
    cases read : recogniser.front? (c :: text) with
    | some found =>
      have whole : (recogniser.front? (c :: text)).isSome := by rw [read, Option.isSome_some]
      exact ⟨fun _ => ⟨c :: text, List.suffix_refl _, whole⟩, fun _ => List.cons_ne_nil _ _⟩
    | none =>
      dsimp only
      rw [ih]
      constructor
      · rintro ⟨rest, suffix, reads⟩
        exact ⟨rest, suffix.trans (List.suffix_cons c text), reads⟩
      · rintro ⟨rest, suffix, reads⟩
        rcases List.suffix_cons_iff.mp suffix with rfl | later
        · rw [read] at reads
          cases reads
        · exact ⟨rest, later, reads⟩

/-- A directive marker can be read where the word for one stands with a letter. -/
theorem isSome_directiveMarker?_iff {text : List Char} :
    (directiveMarker? text).isSome ↔ ∃ c, c.isAlpha = true ∧ ['n', 'g', '-', c] <+: text := by
  -- What is read is the marker with anything behind it.
  rw [Option.isSome_iff_exists]
  constructor
  · rintro ⟨⟨item, rest⟩, read⟩
    obtain ⟨c, letter, shape⟩ := directiveMarker?_eq_some_iff.mp read
    exact ⟨c, letter, rest, shape⟩
  · rintro ⟨c, letter, rest, shape⟩
    exact ⟨((), rest), directiveMarker?_eq_some_iff.mpr ⟨c, letter, shape⟩⟩

/-- A source text has a template when it names one or spells one out. -/
def HasTemplate (text : List Char) : Prop :=
  "templateUrl".toList <:+: text ∨ "template:".toList <:+: text

/-- A source text has translations when it speaks of translating. -/
def HasTranslations (text : List Char) : Prop :=
  "translate".toList <:+: text

/-- A source text has forms when it binds a model or speaks of a form. -/
def HasForms (text : List Char) : Prop :=
  "ng-model".toList <:+: text ∨ "form".toList <:+: text

/-- A source text has directives when a letter follows their prefix somewhere. -/
def HasDirectives (text : List Char) : Prop :=
  ∃ c, c.isAlpha = true ∧ ['n', 'g', '-', c] <:+: text

/-- A directive marker is its prefix with a letter. -/
def directiveForm : WordForm where
  IsWord word := ∃ c, c.isAlpha = true ∧ word = ['n', 'g', '-', c]
  size := 4
  positive := by decide
  length_eq := by
    rintro _ ⟨c, -, rfl⟩
    rfl

/-- The search for directives reads words of their form. -/
theorem reads_directiveRecogniser : directiveRecogniser.Reads directiveForm := by
  -- The words of this form are the texts that the reader of markers takes.
  intro text rest
  have marker : directiveRecogniser.front? text = some ((), rest) ↔ _ :=
    directiveMarker?_eq_some_iff
  rw [marker]
  constructor
  · rintro ⟨c, letter, shape⟩
    exact ⟨_, ⟨c, letter, rfl⟩, shape⟩
  · rintro ⟨_, ⟨c, letter, rfl⟩, shape⟩
    exact ⟨c, letter, shape⟩

namespace Markers

variable (text : List Char)

/-- The markers of a text tell whether it has a template. -/
theorem hasAnyTemplate_ofText : (ofText text).hasAnyTemplate = true ↔ HasTemplate text := by
  -- Either of two words is looked for.
  rw [hasAnyTemplate, Bool.or_eq_true, HasTemplate, ← occursIn_iff, ← occursIn_iff]
  rfl

/-- The markers of a text tell whether it has translations. -/
theorem hasTranslations_ofText : (ofText text).hasTranslations = true ↔ HasTranslations text :=
  -- One word is looked for.
  occursIn_iff

/-- The markers of a text tell whether it has forms. -/
theorem hasForms_ofText : (ofText text).hasForms = true ↔ HasForms text := by
  -- Either of two words is looked for here, too.
  rw [HasForms, ← occursIn_iff, ← occursIn_iff, ← Bool.or_eq_true]
  rfl

/-- The markers of a text tell whether it has directives. -/
theorem hasDirectives_ofText : (ofText text).hasDirectives = true ↔ HasDirectives text := by
  -- The text has none when no position of it begins with a marker.
  have counted : (ofText text).hasDirectives = true ↔ directiveRecogniser.findAll text ≠ [] := by
    rw [hasDirectives, decide_eq_true_eq]
    exact List.length_pos_iff
  rw [counted, Recogniser.findAll_ne_nil_iff]
  constructor
  · rintro ⟨rest, suffix, reads⟩
    obtain ⟨c, letter, front⟩ := isSome_directiveMarker?_iff.mp reads
    exact ⟨c, letter, front.isInfix.trans suffix.isInfix⟩
  · rintro ⟨c, letter, within⟩
    obtain ⟨rest, front, suffix⟩ := List.infix_iff_prefix_suffix.mp within
    exact ⟨rest, suffix, isSome_directiveMarker?_iff.mpr ⟨c, letter, front⟩⟩

/-- The directives of a text are as many as can be chosen from it without an overlap. So two texts
have as many when they are put together as they have alone, or one more, which stands where they
meet. -/
theorem isGreatest_directiveCount :
    IsGreatest (directiveForm.counts text) (ofText text).directiveCount ∧
      ∀ more,
        (ofText text).directiveCount + (ofText more).directiveCount ≤
            (ofText (text ++ more)).directiveCount ∧
          (ofText (text ++ more)).directiveCount ≤
            (ofText text).directiveCount + (ofText more).directiveCount + 1 := by
  -- A search from the front finds as many words as can be chosen, for every text.
  have greatest := fun content => reads_directiveRecogniser.isGreatest_findAll content
  exact ⟨greatest text, fun more =>
    WordForm.isGreatest_counts_append (greatest text) (greatest more) (greatest (text ++ more))⟩

/-- Of two directives that overlap one counts, and one can come about where two texts meet. -/
example : (ofText "ng-ng-a".toList).directiveCount = 1 ∧
    (ofText "ng-if ng-".toList).directiveCount = 1 ∧ (ofText "repeat".toList).directiveCount = 0 ∧
    (ofText "ng-if ng-repeat".toList).directiveCount = 2 := by
  decide +kernel

end Markers

/-- The markers of a text decide whether it has a template. -/
instance : DecidablePred HasTemplate := fun text =>
  decidable_of_iff _ (Markers.hasAnyTemplate_ofText text)

/-- The markers of a text decide whether it has translations. -/
instance : DecidablePred HasTranslations := fun text =>
  decidable_of_iff _ (Markers.hasTranslations_ofText text)

/-- The markers of a text decide whether it has forms. -/
instance : DecidablePred HasForms := fun text =>
  decidable_of_iff _ (Markers.hasForms_ofText text)

/-- The markers of a text decide whether it has directives. -/
instance : DecidablePred HasDirectives := fun text =>
  decidable_of_iff _ (Markers.hasDirectives_ofText text)

end Stocktake
