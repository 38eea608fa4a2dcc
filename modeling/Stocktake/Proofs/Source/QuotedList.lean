import Stocktake.Proofs.Source.DependencyName

/-! Dependencies that are written into a list between quotes are read back from it just when there are
no quotes at their ends. Quotes can be left there, as those inside of white space inside of others are
not looked at. -/

namespace Stocktake

/-- A name is bare when there is no quote at either end. -/
def IsBare (name : List Char) : Prop :=
  (∀ c ∈ name.head?, isEntryQuote c = false) ∧ ∀ c ∈ name.getLast?, isEntryQuote c = false

/-- What begins with the word for a constructor is no constructor when it goes on as a name. -/
theorem IsDependencyName.isInlineConstructor_eq_false {name : List Char}
    (proper : IsDependencyName name) : isInlineConstructor name = false := by
  rw [isInlineConstructor]
  split
  · -- The character behind the word decides.
    rename_i c rest word
    rw [List.isPrefixOf?_eq_some_iff_append_eq] at word
    simp [proper.goesOn c rest word.symm]
  · rfl

/-- A dependency is what is left of it between quotes just when it is bare. -/
theorem IsDependencyName.trim_stripEnds_eq_self_iff {name : List Char}
    (proper : IsDependencyName name) :
    trim (stripEnds isEntryQuote name) = name ↔ IsBare name := by
  have trimmed : trim name = name := stripEnds_eq_self proper.front proper.back
  constructor
  · intro whole
    -- Neither the quotes nor the white space can have taken anything away.
    have inner := (stripEnds_isInfix isBlank (stripEnds isEntryQuote name)).length_le
    have outer := (stripEnds_isInfix isEntryQuote name).sublist
    have long : name.length ≤ (stripEnds isEntryQuote name).length := by
      rwa [← trim, whole] at inner
    exact stripEnds_eq_self_iff.mp (outer.eq_of_length_le long)
  · -- No quote is taken away, and no white space then.
    intro bare
    rw [stripEnds_eq_self_iff.mpr bare, trimmed]

/-- Entries with a space between them stand for the same names as without it. -/
theorem map_entryName_splitOn_spaced {entries : List (List Char)} (some_entry : entries ≠ [])
    (free : ∀ entry ∈ entries, ',' ∉ entry) :
    (([',', ' '].intercalate entries).splitOn ',').map entryName = entries.map entryName := by
  induction entries with
  | nil => exact absurd rfl some_entry
  | cons entry entries ih =>
    have first := free entry List.mem_cons_self
    cases entries with
    | nil => rw [List.intercalate_singleton, List.splitOn_eq_singleton first]
    | cons next entries =>
      have later := ih (List.cons_ne_nil next entries)
        fun other member => free other (List.mem_cons_of_mem entry member)
      -- The space is white space around the entry behind it.
      have space : ∀ c ∈ [' '], isBlank c = true := List.forall_mem_singleton.mpr (by decide)
      have padded := map_splitOn_padded (by decide : ',' ∉ [' ']) (List.not_mem_nil)
        (entryName_append_left space) (fun part => by rw [List.append_nil])
        ([',', ' '].intercalate (next :: entries))
      rw [List.append_nil, later] at padded
      rw [List.intercalate_cons_cons, List.append_assoc, List.cons_append,
        List.splitOn_append_cons_self_of_not_mem first, List.map_cons, padded]
      rfl

/-- A list of names between quotes is an injection list, whose entries stand for what is left of the
names there. -/
theorem exists_injectedNames_quotedList {names : List (List Char)} (some_name : names ≠ [])
    (proper : ∀ name ∈ names, IsDependencyName name) :
    ∃ body, injectedNames (quotedList names) = namesInList body ∧
      (body.splitOn ',').map entryName =
        names.map fun name => trim (stripEnds isEntryQuote name) := by
  -- Only the names themselves could have a separator or a closing bracket in them.
  have free : ∀ c, c ≠ '\x27' → (∀ name ∈ names, c ∉ name) →
      ∀ entry ∈ names.map (fun name => '\x27' :: (name ++ ['\x27'])), c ∉ entry := by
    intro c other absent entry member
    obtain ⟨name, among, rfl⟩ := List.mem_map.mp member
    simp [other, absent name among]
  have oneEntry := free ',' (by decide) fun name member => (proper name member).oneEntry
  have unclosed := not_mem_intercalate (by decide : ']' ∉ [',', ' '])
    (free ']' (by decide) fun name member => (proper name member).unclosed)
  have filled : [',', ' '].intercalate (names.map fun name => '\x27' :: (name ++ ['\x27'])) ≠ [] := by
    -- The first entry begins with a quote.
    obtain ⟨name, others, rfl⟩ := List.exists_cons_of_ne_nil some_name
    cases others <;> simp
  refine ⟨_, ?_, (map_entryName_splitOn_spaced (by simpa using some_name) oneEntry).trans ?_⟩
  · -- Nothing comes before the list or behind it.
    have shape : quotedList names = [] ++ '[' :: ([',', ' '].intercalate
        (names.map fun name => '\x27' :: (name ++ ['\x27'])) ++ ']' :: []) := rfl
    rw [injectedNames, lastInjectionList?, shape,
      lastListFrom_written (by simp) filled unclosed rfl List.not_mem_nil]
  · -- Of each entry its quotes are taken away first.
    rw [List.map_map]
    apply List.map_congr_left
    intro name _
    exact entryName_between rfl name

/-- Names that can be dependencies and are all different are read back from a list of them between
quotes just when they are bare. -/
theorem injectedNames_quotedList_iff {names : List (List Char)}
    (proper : ∀ name ∈ names, IsDependencyName name) (distinct : names.Nodup) :
    injectedNames (quotedList names) = names ↔ ∀ name ∈ names, IsBare name := by
  by_cases nothing : names = []
  · -- From a list without names there come none.
    subst nothing
    simp [show injectedNames (quotedList []) = [] from by decide]
  obtain ⟨body, read, entries⟩ := exists_injectedNames_quotedList nothing proper
  rw [read]
  constructor
  · intro same name member
    -- As many names as there are entries come from these, so that each is what its own stands for.
    have among := namesInList_sublist body
    rw [same, entries] at among
    have whole := among.eq_of_length (by rw [List.length_map])
    have fixed := List.map_inj_left.mp (whole.symm.trans (List.map_id names).symm) name member
    exact (proper name member).trim_stripEnds_eq_self_iff.mp fixed
  · intro bare
    have fixed : names.map (fun name => trim (stripEnds isEntryQuote name)) = names := by
      conv => rhs; rw [← List.map_id names]
      apply List.map_congr_left
      intro name member
      exact (proper name member).trim_stripEnds_eq_self_iff.mpr (bare name member)
    -- None of the names is left out, none of them ends the list, and none is repeated.
    rw [namesInList, entries, fixed, List.filter_eq_self.mpr, List.takeWhile_eq_self_iff.mpr,
      eraseDups_eq_self distinct]
    · intro name member
      simp [(proper name member).isInlineConstructor_eq_false]
    · intro name member
      simp [(proper name member).filled, (proper name member).ordinary]

/-- The dependencies of a source text, written into a list between quotes, are read back from it just
when there is no quote at either end of any of them. -/
theorem dependenciesOf_quotedList_iff (content : String) :
    dependenciesOf (String.ofList (quotedList ((dependenciesOf content).map String.toList))) =
        dependenciesOf content ↔
      ∀ name ∈ dependenciesOf content, IsBare name.toList := by
  have texts : (dependenciesOf content).map String.toList = injectedNames content.toList := by
    simp [dependenciesOf, Function.comp_def]
  have proper : ∀ name ∈ injectedNames content.toList, IsDependencyName name :=
    fun _ => isDependencyName_of_mem_injectedNames
  -- Texts are the same when the strings of their characters are.
  rw [texts, dependenciesOf, dependenciesOf, String.toList_ofList,
    List.map_inj_right fun _ _ same => String.ofList_injective same,
    injectedNames_quotedList_iff proper (nodup_injectedNames content.toList), List.forall_mem_map]
  simp only [String.toList_ofList]

/-- White space inside of quotes keeps further quotes from being looked at. They are left at the ends
of the name, and taken away when the name is read once more. -/
theorem dependenciesOf_nested_quotes :
    dependenciesOf "[' 'a' ']" = ["'a'"] ∧
      quotedList (["'a'"].map String.toList) = "[''a'']".toList ∧
      dependenciesOf "[''a'']" = ["a"] := by
  -- Only the outer quotes touch the white space, and they are stripped once.
  decide +kernel

end Stocktake
