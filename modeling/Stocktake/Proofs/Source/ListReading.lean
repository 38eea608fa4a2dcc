import Stocktake.Proofs.Source.DependencyName
import Stocktake.Proofs.Text.Separator

/-! The names of a list are told by what each step leaves of the text between the brackets. Every
text has exactly one list of names that the steps lead to, and it is the one that is read. -/

namespace Stocktake

/-- What is left of a text without the characters of a class at its ends. -/
structure IsStripped (drops : Char → Prop) (text core : List Char) : Prop where
  parts : ∃ before behind, text = before ++ (core ++ behind) ∧ (∀ c ∈ before, drops c) ∧
    ∀ c ∈ behind, drops c
  front : ∀ c ∈ core.head?, ¬ drops c
  back : ∀ c ∈ core.getLast?, ¬ drops c

/-- Stripping a text leaves what it is meant to, and nothing else can be left. -/
theorem isStripped_iff {drops : Char → Bool} {text core : List Char} :
    IsStripped (drops · = true) text core ↔ stripEnds drops text = core := by
  constructor
  · rintro ⟨⟨before, behind, rfl, front, back⟩, first, last⟩
    -- What is dropped at the ends goes, and nothing more does.
    rw [stripEnds_append_left front, stripEnds_append_right back]
    exact stripEnds_eq_self (fun c member => by simpa using first c member)
      fun c member => by simpa using last c member
  · rintro rfl
    -- The text falls into its front, what is left, and its back, which is dropped the other way.
    have whole := List.takeWhile_append_dropWhile (p := drops) (l := text)
    have rest := List.takeWhile_append_dropWhile (p := drops) (l := (text.dropWhile drops).reverse)
    refine ⟨⟨text.takeWhile drops, ((text.dropWhile drops).reverse.takeWhile drops).reverse, ?_,
      fun c member => List.mem_takeWhile_imp member,
      fun c member => List.mem_takeWhile_imp (List.mem_reverse.mp member)⟩,
      fun c member => by simp [eq_false_of_mem_head?_stripEnds member],
      fun c member => by simp [eq_false_of_mem_getLast?_stripEnds member]⟩
    rw [stripEnds, ← List.reverse_append, rest, List.reverse_reverse, whole]

/-- The characters between which a name may be written. -/
def IsQuote (c : Char) : Prop :=
  c = '\x27' ∨ c = '\x22' ∨ c = '\x60'

/-- The name that a piece of a list spells: white space is taken off its ends, then quotes, and then
white space once more. -/
def Spells (piece name : List Char) : Prop :=
  ∃ trimmed unquoted, IsStripped (isBlank · = true) piece trimmed ∧
    IsStripped IsQuote trimmed unquoted ∧ IsStripped (isBlank · = true) unquoted name

/-- Each piece spells the name that is read from it. -/
theorem spells_iff {piece name : List Char} : Spells piece name ↔ entryName piece = name := by
  have quotes : IsQuote = (isEntryQuote · = true) := by
    funext c
    simp [IsQuote, isEntryQuote, or_assoc]
  rw [Spells, quotes]
  -- Every step has one result.
  simp only [isStripped_iff, entryName, trim]
  constructor
  · rintro ⟨_, _, rfl, rfl, rfl⟩
    rfl
  · rintro rfl
    exact ⟨_, _, rfl, rfl, rfl⟩

/-- A name opens an inline constructor when the word for one stands at its front, and behind it a
character that does not go on with a longer name. -/
def OpensConstructor (name : List Char) : Prop :=
  ∃ c rest, name = "function".toList ++ c :: rest ∧
    ¬ (isAlphanumeric c = true ∨ c = '_' ∨ c = '$')

/-- The constructors among names are found. -/
theorem opensConstructor_iff {name : List Char} :
    OpensConstructor name ↔ isInlineConstructor name = true := by
  -- The check takes the word off the front and looks at the next character.
  constructor
  · rintro ⟨c, rest, rfl, ends⟩
    exact isInlineConstructor_append_cons (by simpa [continuesName, and_assoc] using ends) rest
  · intro inline
    rw [isInlineConstructor] at inline
    split at inline
    · rename_i c rest found
      refine ⟨c, rest, (List.isPrefixOf?_eq_some_iff_append_eq.mp found).symm, ?_⟩
      simpa [continuesName, and_assoc] using inline
    · cases inline

section FirstOccurrences

variable {α : Type} [BEq α] [LawfulBEq α] {items names : List α}

/-- The items of a list without repetitions, in the order in which they first occur. -/
structure AreFirstOccurrences (items names : List α) : Prop where
  members : ∀ name, name ∈ names ↔ name ∈ items
  ordered : names.Pairwise fun one next => items.idxOf one < items.idxOf next

/-- Without its repetitions, a list has its items in the order in which they first occur. -/
theorem areFirstOccurrences_eraseDups (items : List α) :
    AreFirstOccurrences items items.eraseDups := by
  refine ⟨fun name => List.mem_eraseDups, ?_⟩
  -- The last item apart: it comes behind all others, if it is none of them.
  induction items using List.reverseRecOn with
  | nil => exact List.Pairwise.nil
  | append_singleton items item ih =>
    have earlier : items.eraseDups.Pairwise fun one next =>
        (items ++ [item]).idxOf one < (items ++ [item]).idxOf next := by
      refine ih.imp_of_mem fun one next before => ?_
      rwa [List.idxOf_append_of_mem (List.mem_eraseDups.mp one),
        List.idxOf_append_of_mem (List.mem_eraseDups.mp next)]
    rw [eraseDups_concat]
    split
    · exact earlier
    · rename_i absent
      have new : item ∉ items := by simpa using absent
      refine List.pairwise_append.mpr ⟨earlier, List.pairwise_singleton _ _, ?_⟩
      intro one among next last
      obtain rfl := List.mem_singleton.mp last
      have inside := List.mem_eraseDups.mp among
      rw [List.idxOf_append_of_mem inside, List.idxOf_append_of_notMem new]
      exact Nat.lt_add_right _ (List.idxOf_lt_length_of_mem inside)

/-- There is one list of first occurrences. -/
theorem areFirstOccurrences_iff : AreFirstOccurrences items names ↔ items.eraseDups = names := by
  refine ⟨fun occurrences => ?_, fun same => same ▸ areFirstOccurrences_eraseDups items⟩
  have own := areFirstOccurrences_eraseDups items
  -- Both lists have the same items, each once, and the places of these are in one order.
  have distinct : ∀ {list : List α}, AreFirstOccurrences items list → list.Nodup := by
    intro list ordered
    exact ordered.ordered.imp fun before same => by simp [same] at before
  have permuted := (List.perm_ext_iff_of_nodup (distinct own) (distinct occurrences)).mpr
    fun name => (own.members name).trans (occurrences.members name).symm
  exact permuted.eq_of_pairwise (fun _ _ _ _ before after => absurd after (Nat.lt_asymm before))
    own.ordered occurrences.ordered

end FirstOccurrences

/-- How names are read off the text between the brackets of a list. -/
structure ListReading (body : List Char) (names : List (List Char)) where
  /-- The pieces of the text, which the commas in it divide. -/
  pieces : List (List Char)
  filled : pieces ≠ []
  joined : [','].intercalate pieces = body
  undivided : ∀ piece ∈ pieces, ',' ∉ piece
  /-- The name that each piece spells. -/
  spelled : List (List Char)
  spells : List.Forall₂ Spells pieces spelled
  /-- The names before the first constructor, and those from this one on. Empty names do not count,
  and the word for a constructor does not count when it stands alone. -/
  kept : List (List Char)
  cut : List (List Char)
  counted : (spelled.filter fun name => name ≠ [] ∧ name ≠ "function".toList) = kept ++ cut
  plain : ∀ name ∈ kept, ¬ OpensConstructor name
  opens : ∀ name ∈ cut.head?, OpensConstructor name
  once : AreFirstOccurrences kept names

/-- The names that count are neither empty nor the word for a constructor alone. -/
theorem filter_counted (spelled : List (List Char)) :
    (spelled.filter fun name => name ≠ [] ∧ name ≠ "function".toList) =
      spelled.filter fun name => !name.isEmpty && name != constructorWord := by
  -- Both conditions say the same of each name.
  change (spelled.filter fun name => decide (name ≠ [] ∧ name ≠ constructorWord)) = _
  generalize constructorWord = word
  refine List.filter_congr fun name _ => ?_
  rw [Bool.eq_iff_iff]
  simp

namespace ListReading

variable {body : List Char} {names : List (List Char)}

/-- Reading the text between brackets leads to the names that are injected, and to no others. -/
theorem namesInList_eq (reading : ListReading body names) : namesInList body = names := by
  obtain ⟨pieces, filled, rfl, undivided, spelled, spells, kept, cut, counted, plain, opens, once⟩ :=
    reading
  -- Each step can only have the result that it has in the function.
  have split : ([','].intercalate pieces).splitOn ',' = pieces :=
    List.splitOn_intercalate ',' undivided filled
  have read : pieces.map entryName = spelled := by
    have same := spells.imp fun _ _ spells => spells_iff.mp spells
    exact List.forall₂_eq_eq_eq ▸ List.forall₂_map_left_iff.mpr same
  have before : (kept ++ cut).takeWhile (!isInlineConstructor ·) = kept := by
    have passes : ∀ name ∈ kept, (!isInlineConstructor name) = true := fun name member => by
      simpa using mt opensConstructor_iff.mpr (plain name member)
    rw [List.takeWhile_append_of_pos passes]
    cases cut with
    | nil => simp
    | cons name cut =>
      have stops := opensConstructor_iff.mp (opens name rfl)
      rw [List.takeWhile_cons_of_neg (by simp [stops]), List.append_nil]
  rw [namesInList, split, read, ← filter_counted, counted, before]
  exact areFirstOccurrences_iff.mp once

/-- The way in which the text between brackets is read. -/
def ofBody (body : List Char) : ListReading body (namesInList body) :=
  let spelled := (body.splitOn ',').map entryName
  let counted := spelled.filter fun name => !name.isEmpty && name != constructorWord
  { pieces := body.splitOn ','
    filled := List.splitOn_ne_nil ',' body
    joined := List.intercalate_splitOn ','
    undivided := fun piece => not_mem_of_mem_splitOn
    spelled := spelled
    spells := List.forall₂_map_right_iff.mpr (List.forall₂_same.mpr fun piece _ => spells_iff.mpr rfl)
    kept := counted.takeWhile (!isInlineConstructor ·)
    cut := counted.dropWhile (!isInlineConstructor ·)
    counted := (filter_counted spelled).trans List.takeWhile_append_dropWhile.symm
    plain := fun name member opens => by
      -- What is kept has passed the check for a constructor.
      have passes := List.mem_takeWhile_imp member
      simp [opensConstructor_iff.mp opens] at passes
    opens := fun name first => by
      -- The first name that is cut has not.
      have stops := List.head?_dropWhile_not (!isInlineConstructor ·) counted
      rw [Option.mem_def.mp first] at stops
      exact opensConstructor_iff.mpr (by simpa using stops)
    once := areFirstOccurrences_eraseDups _ }

end ListReading

/-- The text between brackets is read in one way, which leads to the names that are injected. -/
theorem nonempty_listReading_iff {body : List Char} {names : List (List Char)} :
    Nonempty (ListReading body names) ↔ namesInList body = names := by
  -- A reading has no names but those of the function, which have a reading.
  constructor
  · rintro ⟨reading⟩
    exact reading.namesInList_eq
  · rintro rfl
    exact ⟨.ofBody body⟩

end Stocktake
