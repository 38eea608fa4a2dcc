import Mathlib.Data.List.DropRight
import Stocktake.Proofs.Text.Search
import Stocktake.Proofs.Text.Separator
import Stocktake.Text.Blank
import Stocktake.Text.LineEnding

/-! Carriage returns before the line feeds of a text do not show when the text is taken apart by
classes of characters that hold both of them or neither, by separators, or by words without them. -/

namespace Stocktake

section Expansion

variable {expand : Char → List Char} {drops : Char → Bool}
  (filled : ∀ c, expand c ≠ []) (alike : ∀ c, ∀ d ∈ expand c, drops d = drops c)

include filled alike

/-- Where a class of characters ends does not depend on how characters are written. -/
theorem takeWhile_flatMap_and_dropWhile_flatMap (text : List Char) :
    (text.flatMap expand).takeWhile drops = (text.takeWhile drops).flatMap expand ∧
      (text.flatMap expand).dropWhile drops = (text.dropWhile drops).flatMap expand := by
  induction text with
  | nil => exact ⟨rfl, rfl⟩
  | cons c text ih =>
    rw [List.flatMap_cons]
    by_cases dropped : drops c = true
    · -- All that is written for the character is dropped with it.
      have all : ∀ d ∈ expand c, drops d = true := by
        intro d member
        rw [alike c d member, dropped]
      rw [List.takeWhile_append_of_pos all, List.dropWhile_append_of_pos all,
        List.takeWhile_cons_of_pos dropped, List.dropWhile_cons_of_pos dropped, ih.1, ih.2]
      exact ⟨rfl, rfl⟩
    · -- The first character that is written for it is kept already.
      obtain ⟨d, others, shape⟩ := List.exists_cons_of_ne_nil (filled c)
      have kept : ¬ drops d = true := by
        rw [alike c d (by simp [shape])]
        exact dropped
      rw [List.takeWhile_cons_of_neg dropped, List.dropWhile_cons_of_neg dropped,
        List.flatMap_cons, shape, List.cons_append, List.takeWhile_cons_of_neg kept,
        List.dropWhile_cons_of_neg kept]
      exact ⟨rfl, rfl⟩

/-- What is stripped from both ends of a text does not depend on how characters are written. -/
theorem stripEnds_flatMap (text : List Char) :
    stripEnds drops (text.flatMap expand) = (stripEnds drops text).flatMap expand := by
  have filled' : ∀ c, (List.reverse ∘ expand) c ≠ [] := by
    intro c
    simpa using filled c
  have alike' : ∀ c, ∀ d ∈ (List.reverse ∘ expand) c, drops d = drops c := by
    intro c d member
    exact alike c d (by simpa using member)
  -- Seen from its end, the text is written in the same way, with reversed pieces.
  rw [stripEnds, stripEnds, (takeWhile_flatMap_and_dropWhile_flatMap filled alike text).2,
    List.reverse_flatMap, (takeWhile_flatMap_and_dropWhile_flatMap filled' alike' _).2,
    List.flatMap_reverse]

end Expansion

/-- Only carriage returns and line feeds belong to line ends. -/
theorem isInLine_iff {c : Char} : isInLine c = true ↔ c ≠ '\r' ∧ c ≠ '\n' := by
  -- The test asks for either of the two.
  rw [isInLine, Bool.and_eq_true, bne_iff_ne, bne_iff_ne]

/-- Something is written for each character. -/
theorem withReturn_ne_nil (c : Char) : withReturn c ≠ [] := by
  -- One character is written or two are.
  rw [withReturn]
  split
  · exact List.cons_ne_nil _ _
  · exact List.cons_ne_nil _ _

/-- Each character but a line feed is written as it is. -/
theorem withReturns_cons {c : Char} (other : c ≠ '\n') (text : List Char) :
    withReturns (c :: text) = c :: withReturns text := by
  -- Characters are written one after the other, and only a line feed as two.
  rw [withReturns, List.flatMap_cons, withReturn, if_neg other]
  rfl

/-- A line feed is written with a carriage return before it. -/
theorem withReturns_lineFeed (text : List Char) :
    withReturns ('\n' :: text) = '\r' :: '\n' :: withReturns text := by
  -- This is the one character that is written as two.
  rfl

/-- Texts are written one behind the other. -/
theorem withReturns_append (one other : List Char) :
    withReturns (one ++ other) = withReturns one ++ withReturns other :=
  -- Characters are written one after the other.
  List.flatMap_append

/-- Only the empty text is written as nothing. -/
theorem withReturns_eq_nil {text : List Char} : withReturns text = [] ↔ text = [] := by
  -- The first character of a text would be written as something.
  constructor
  · intro nothing
    cases text with
    | nil => rfl
    | cons c text =>
      rw [withReturns, List.flatMap_cons, List.append_eq_nil_iff] at nothing
      exact absurd nothing.1 (withReturn_ne_nil c)
  · intro nothing
    rw [nothing]
    rfl

/-- A text that is not empty is written with a first character. -/
theorem exists_withReturns_cons (c : Char) (text : List Char) :
    ∃ first others, withReturns (c :: text) = first :: others := by
  -- What is written for a first character is not nothing.
  apply List.exists_cons_of_ne_nil
  intro nothing
  cases withReturns_eq_nil.mp nothing

/-- A text that is written with carriage returns does not begin with a line feed. -/
theorem withReturns_ne_lineFeed (text rest : List Char) : withReturns text ≠ '\n' :: rest := by
  -- A line feed is written behind a carriage return, and other characters as they are.
  intro same
  cases text with
  | nil => cases same
  | cons c text =>
    by_cases lineFeed : c = '\n'
    · rw [lineFeed, withReturns_lineFeed] at same
      exact absurd (List.head_eq_of_cons_eq same) (by decide)
    · rw [withReturns_cons lineFeed] at same
      exact lineFeed (List.head_eq_of_cons_eq same)

/-- A text can be told from what is written for it. -/
theorem withReturns_injective : Function.Injective withReturns := by
  intro one
  induction one with
  | nil =>
    intro other same
    exact (withReturns_eq_nil.mp same.symm).symm
  | cons c one ih =>
    intro other same
    cases other with
    | nil => exact withReturns_eq_nil.mp same
    | cons d other =>
      -- Behind a carriage return of its own, a text does not go on with a line feed.
      by_cases lineFeed : c = '\n' <;> by_cases lineFeed' : d = '\n'
      · rw [lineFeed, lineFeed', withReturns_lineFeed, withReturns_lineFeed] at same
        rw [lineFeed, lineFeed', ih (List.cons.inj (List.cons.inj same).2).2]
      · rw [lineFeed, withReturns_lineFeed, withReturns_cons lineFeed'] at same
        exact absurd (List.cons.inj same).2.symm (withReturns_ne_lineFeed other _)
      · rw [lineFeed', withReturns_lineFeed, withReturns_cons lineFeed] at same
        exact absurd (List.cons.inj same).2 (withReturns_ne_lineFeed one _)
      · rw [withReturns_cons lineFeed, withReturns_cons lineFeed'] at same
        obtain ⟨first, others⟩ := List.cons.inj same
        rw [first, ih others]

/-- Carriage returns are the only characters that are added. -/
theorem count_withReturns {c : Char} (other : c ≠ '\r') (text : List Char) :
    (withReturns text).count c = text.count c := by
  induction text with
  | nil => rfl
  | cons d text ih =>
    by_cases lineFeed : d = '\n'
    · -- The carriage return before it is not counted.
      rw [lineFeed, withReturns_lineFeed, List.count_cons_of_ne (Ne.symm other), List.count_cons,
        List.count_cons, ih]
    · rw [withReturns_cons lineFeed, List.count_cons, List.count_cons, ih]

/-- A character other than a carriage return is written where it stands in the text. -/
theorem mem_withReturns {c : Char} (other : c ≠ '\r') {text : List Char} :
    c ∈ withReturns text ↔ c ∈ text := by
  -- The character is written as often as it occurs.
  rw [← List.count_pos_iff, count_withReturns other, List.count_pos_iff]

/-- A character that is not in a text is not written for it. -/
theorem not_mem_withReturns {c : Char} (other : c ≠ '\r') {text : List Char} (free : c ∉ text) :
    c ∉ withReturns text := by
  -- It would have to be in the text.
  rw [mem_withReturns other]
  exact free

section Classes

variable {drops : Char → Bool} (both : drops '\r' = drops '\n')

include both

/-- What is written for a character belongs to the classes of this character. -/
theorem drops_withReturn : ∀ c, ∀ d ∈ withReturn c, drops d = drops c := by
  intro c d member
  rw [withReturn] at member
  split at member
  · -- The two characters of a line end belong to the same classes.
    rename_i lineFeed
    rcases List.mem_pair.mp member with rfl | rfl
    · rw [lineFeed, both]
    · rw [lineFeed]
  · rw [List.mem_singleton.mp member]

/-- The front part of a text with a class of characters is written as such a part. -/
theorem takeWhile_withReturns (text : List Char) :
    (withReturns text).takeWhile drops = withReturns (text.takeWhile drops) :=
  -- The class has both characters of a line end or neither, so it takes all of an end or nothing.
  (takeWhile_flatMap_and_dropWhile_flatMap withReturn_ne_nil (drops_withReturn both) text).1

/-- The text behind a class of characters is written as such a text. -/
theorem dropWhile_withReturns (text : List Char) :
    (withReturns text).dropWhile drops = withReturns (text.dropWhile drops) :=
  -- Whole line ends are taken off the front, as with the part that is taken.
  (takeWhile_flatMap_and_dropWhile_flatMap withReturn_ne_nil (drops_withReturn both) text).2

/-- A text without a class of characters at its ends is written as such a text. -/
theorem stripEnds_withReturns (text : List Char) :
    stripEnds drops (withReturns text) = withReturns (stripEnds drops text) :=
  -- Whole line ends are stripped at both ends.
  stripEnds_flatMap withReturn_ne_nil (drops_withReturn both) text

end Classes

/-- The parts between separators are written between the same separators. -/
theorem splitOn_withReturns {separator : Char} (other : separator ≠ '\r') (other' : separator ≠ '\n')
    (text : List Char) :
    (withReturns text).splitOn separator = (text.splitOn separator).map withReturns := by
  induction text using separated_induction separator with
  | whole text free =>
    rw [List.splitOn_eq_singleton free,
      List.splitOn_eq_singleton (not_mem_withReturns other free)]
    rfl
  | parts part rest free ih =>
    -- The separator is written as it is, and behind a part that has none.
    have free' := not_mem_withReturns other free
    rw [withReturns_append, withReturns_cons other',
      List.splitOn_append_cons_self_of_not_mem free, List.splitOn_append_cons_self_of_not_mem free',
      List.map_cons, ih]

section Words

variable {word : List Char} (plain : word.all isInLine = true)

include plain

/-- A text begins with a word without line ends when what is written for it does. -/
theorem withReturns_eq_append {text rest : List Char} :
    withReturns text = word ++ rest ↔ ∃ left, text = word ++ left ∧ rest = withReturns left := by
  induction word generalizing text with
  | nil =>
    constructor
    · intro same
      exact ⟨text, rfl, same.symm⟩
    · intro parts
      obtain ⟨left, rfl, rfl⟩ := parts
      rfl
  | cons c word ih =>
    obtain ⟨first, others⟩ := Bool.and_eq_true_iff.mp plain
    have other := isInLine_iff.mp first
    constructor
    · intro same
      cases text with
      | nil => cases same
      | cons d text =>
        by_cases lineFeed : d = '\n'
        · -- A line feed is written with a character that is not in the word.
          rw [lineFeed, withReturns_lineFeed] at same
          exact absurd (List.head_eq_of_cons_eq same).symm other.1
        · rw [withReturns_cons lineFeed] at same
          obtain ⟨begins, behind⟩ := List.cons.inj same
          obtain ⟨left, rfl, rfl⟩ := (ih others).mp behind
          exact ⟨left, by rw [begins, List.cons_append], rfl⟩
    · intro parts
      obtain ⟨left, rfl, rfl⟩ := parts
      rw [List.cons_append, withReturns_cons other.2, (ih others).mpr ⟨left, rfl, rfl⟩,
        List.cons_append]

/-- A text is written as a word without line ends when it is this word. -/
theorem withReturns_eq_word {text : List Char} : withReturns text = word ↔ text = word := by
  -- A word is a text with nothing behind the word.
  have whole := @withReturns_eq_append word plain text []
  rw [List.append_nil] at whole
  rw [whole]
  constructor
  · intro parts
    obtain ⟨left, rfl, nothing⟩ := parts
    rw [withReturns_eq_nil.mp nothing.symm, List.append_nil]
  · intro same
    exact ⟨[], by rw [same, List.append_nil], rfl⟩

/-- A word without line ends leaves the same text behind it. -/
theorem isPrefixOf?_withReturns (text : List Char) :
    word.isPrefixOf? (withReturns text) = (word.isPrefixOf? text).map withReturns := by
  -- What is written begins with the word just when the text does.
  apply Option.ext
  intro rest
  rw [List.isPrefixOf?_eq_some_iff_append_eq, eq_comm, withReturns_eq_append plain,
    Option.map_eq_some_iff]
  constructor
  · intro parts
    obtain ⟨left, rfl, rfl⟩ := parts
    exact ⟨left, List.isPrefixOf?_eq_some_iff_append_eq.mpr rfl, rfl⟩
  · intro parts
    obtain ⟨left, read, rfl⟩ := parts
    exact ⟨left, (List.isPrefixOf?_eq_some_iff_append_eq.mp read).symm, rfl⟩

/-- A word without line ends occurs in a text when it occurs in what is written for it. -/
theorem occursIn_withReturns (filled : word ≠ []) (text : List Char) :
    occursIn word (withReturns text) = occursIn word text := by
  -- What is written for a line feed is passed over.
  have front : ∀ text : List Char, word.isPrefixOf (withReturns text) = word.isPrefixOf text := by
    intro text
    rw [← List.isSome_isPrefixOf?_eq_isPrefixOf, isPrefixOf?_withReturns plain, Option.isSome_map,
      List.isSome_isPrefixOf?_eq_isPrefixOf]
  obtain ⟨c, others, shape⟩ := List.exists_cons_of_ne_nil filled
  have behind : ∀ rest, word.isPrefixOf ('\n' :: rest) = false := by
    intro rest
    have other := isInLine_iff.mp (List.all_eq_true.mp plain c (by simp [shape]))
    rw [shape, List.isPrefixOf, beq_eq_false_iff_ne.mpr other.2, Bool.false_and]
  induction text with
  | nil => rfl
  | cons d text ih =>
    have first := front (d :: text)
    by_cases lineFeed : d = '\n'
    · rw [lineFeed, withReturns_lineFeed] at first ⊢
      rw [occursIn, occursIn, occursIn, first, behind, behind, ih, Bool.false_or]
    · rw [withReturns_cons lineFeed] at first ⊢
      rw [occursIn, occursIn, first, ih]

end Words

/-- The items of a text are found in what is written for it, when a recogniser reads the same from
both and no item begins with a line feed. -/
theorem Recogniser.findAll_withReturns {α : Type} {recogniser : Recogniser α} {change : α → α}
    (reads : ∀ text, recogniser.front? (withReturns text) =
      (recogniser.front? text).map (Prod.map change withReturns))
    (starts : ∀ text, recogniser.front? ('\n' :: text) = none) (text : List Char) :
    recogniser.findAll (withReturns text) = (recogniser.findAll text).map change := by
  -- The induction is on the length of the text, since an item may be of any length.
  induction size : text.length using Nat.strongRecOn generalizing text with
  | ind length ih =>
    subst size
    cases text with
    | nil => simp [withReturns, findAll, findFrom]
    | cons c text =>
      have here := reads (c :: text)
      cases read : recogniser.front? (c :: text) with
      | some found =>
        obtain ⟨item, rest⟩ := found
        rw [read] at here
        rw [findAll_of_front? read, findAll_of_front? here, List.map_cons,
          ih rest.length (recogniser.shorter read) rest rfl]
      | none =>
        rw [read, Option.map_none] at here
        have others := ih text.length (Nat.lt_succ_self text.length) text rfl
        by_cases lineFeed : c = '\n'
        · -- The carriage return is passed over, and then the line feed.
          rw [lineFeed, withReturns_lineFeed] at here ⊢
          rw [findAll_cons_of_none here, findAll_cons_of_none (starts _), others,
            findAll_cons_of_none (starts text)]
        · rw [withReturns_cons lineFeed] at here ⊢
          rw [findAll_cons_of_none here, findAll_cons_of_none read, others]

end Stocktake
