import Mathlib.Data.List.Induction
import Mathlib.Data.List.Nodup
import Stocktake.Proofs.Source.ClosingBracket
import Stocktake.Proofs.Source.EntryName
import Stocktake.Proofs.Source.WrittenList
import Stocktake.Proofs.Text.Places

/-! The dependencies of a source text are different names that stand in it one behind the other, and
each of them is a name that a list can hold, except that there may be quotes at its ends. -/

namespace Stocktake

section Distinct

variable {α : Type} [BEq α] [LawfulBEq α]

/-- An item behind others is a repetition when it is among them, and else the last of all. -/
theorem eraseDups_concat (items : List α) (item : α) :
    (items ++ [item]).eraseDups =
      if items.contains item then items.eraseDups else items.eraseDups ++ [item] := by
  -- Of the items behind others, those are kept that are not among the others.
  rw [List.eraseDups_append]
  cases among : items.contains item with
  | true => simp [List.removeAll, List.contains_iff_mem.mp among]
  | false =>
    have absent : item ∉ items := by simpa using among
    simp [List.removeAll, absent, List.eraseDups_cons]

/-- Repetitions are left out, and nothing else is changed. -/
theorem eraseDups_sublist (items : List α) : items.eraseDups.Sublist items := by
  -- The last item apart, since it is there that an item is kept or left out.
  induction items using List.reverseRecOn with
  | nil => exact List.Sublist.slnil
  | append_singleton items item ih =>
    rw [eraseDups_concat]
    split
    · exact ih.trans (List.sublist_append_left items [item])
    · exact ih.append (List.Sublist.refl [item])

/-- Without repetitions all items are different. -/
theorem nodup_eraseDups (items : List α) : items.eraseDups.Nodup := by
  induction items using List.reverseRecOn with
  | nil => exact List.nodup_nil
  | append_singleton items item ih =>
    rw [eraseDups_concat]
    split
    · exact ih
    · -- The last item is not among those before it, with or without repetitions.
      rename_i absent
      refine List.nodup_append.mpr ⟨ih, by simp, ?_⟩
      intro other member last single same
      rw [List.mem_singleton.mp single] at same
      subst same
      exact absent (List.contains_iff_mem.mpr (List.mem_eraseDups.mp member))

/-- Different items have no repetitions. -/
theorem eraseDups_eq_self {items : List α} (distinct : items.Nodup) :
    items.eraseDups = items := by
  -- Each item is new when it comes, so it is kept at the end.
  induction items using List.reverseRecOn with
  | nil => rfl
  | append_singleton items item ih =>
    obtain ⟨before, -, apart⟩ := List.nodup_append.mp distinct
    have absent : item ∉ items := fun member => apart item member item (by simp) rfl
    rw [eraseDups_concat, if_neg (by simpa using absent), ih before]

end Distinct

/-- What an entry stands for is a part of the entry. -/
theorem entryName_isInfix (entry : List Char) : entryName entry <:+: entry :=
  -- Three times something is left out at the ends.
  ((stripEnds_isInfix isBlank _).trans (stripEnds_isInfix isEntryQuote _)).trans
    (stripEnds_isInfix isBlank entry)

/-- The names of a list are among those that its entries stand for, in the same order. -/
theorem namesInList_sublist (body : List Char) :
    (namesInList body).Sublist ((body.splitOn ',').map entryName) :=
  -- Filtering, cutting at the constructor and dropping repetitions all leave items out.
  ((eraseDups_sublist _).trans (List.takeWhile_sublist _)).trans List.filter_sublist

/-- A name of a list is what one of its entries stands for, and it is neither empty nor a
constructor. -/
theorem mem_namesInList {body name : List Char} (member : name ∈ namesInList body) :
    (∃ entry ∈ body.splitOn ',', entryName entry = name) ∧ name ≠ [] ∧ name ≠ constructorWord ∧
      isInlineConstructor name = false := by
  -- The steps are undone from the last one: repetitions, the end at a constructor, the filter.
  have kept := List.mem_eraseDups.mp member
  have plain := List.mem_takeWhile_imp kept
  obtain ⟨among, proper⟩ := List.mem_filter.mp ((List.takeWhile_sublist _).mem kept)
  simp only [Bool.and_eq_true, Bool.not_eq_true', List.isEmpty_eq_false_iff, bne_iff_ne] at proper
  exact ⟨List.mem_map.mp among, proper.1, proper.2, by simpa using plain⟩

/-- A text that can be a dependency, which may have quotes at its ends. -/
structure IsDependencyName (name : List Char) : Prop where
  filled : name ≠ []
  /-- There is no white space at either end. -/
  front : ∀ c ∈ name.head?, isBlank c = false
  back : ∀ c ∈ name.getLast?, isBlank c = false
  oneEntry : ',' ∉ name
  unclosed : ']' ∉ name
  ordinary : name ≠ constructorWord
  /-- What begins with the word for a constructor goes on as a longer name. -/
  goesOn : ∀ c rest, name = constructorWord ++ c :: rest → continuesName c = true

/-- The names of a list that is closed behind all of them can be dependencies. -/
theorem isDependencyName_of_mem {body name : List Char} (unclosed : ']' ∉ body)
    (member : name ∈ namesInList body) : IsDependencyName name := by
  obtain ⟨⟨entry, among, rfl⟩, filled, ordinary, plain⟩ := mem_namesInList member
  have inside := entryName_isInfix entry
  have stand := standInOrder_splitOn (fun part => List.infix_rfl) ',' body
  have within : entry <:+: body := stand.isInfix (by simpa using among)
  -- The ends are what the last trimming has left; what is not in the list is not in its entry.
  constructor
  case filled => exact filled
  case front => exact fun _ => eq_false_of_mem_head?_stripEnds
  case back => exact fun _ => eq_false_of_mem_getLast?_stripEnds
  case oneEntry => exact fun comma => not_mem_of_mem_splitOn among (inside.subset comma)
  case unclosed => exact fun bracket => unclosed (within.subset (inside.subset bracket))
  case ordinary => exact ordinary
  case goesOn =>
    intro c rest shape
    -- Otherwise the name would be a constructor.
    by_contra ends
    rw [shape, isInlineConstructor_append_cons (by simpa using ends)] at plain
    cases plain

/-- The list that a search ends with was found before, or is a part of the text without closing
bracket. -/
theorem lastListFrom_cases (text : List Char) : ∀ found,
    lastListFrom found none text = found ∨
      ∃ body, lastListFrom found none text = some body ∧ body <:+: text ∧ ']' ∉ body := by
  -- At each closing bracket the list before it takes the place of what was found, or does not.
  induction text using separated_induction ']' with
  | whole text free => exact fun found => .inl (lastListFrom_of_not_mem free found)
  | parts segment rest free ih =>
    intro found
    rw [lastListFrom_append_cons free]
    rcases ih ((closedList? segment rest).or found) with same | ⟨body, last, inside, unclosed⟩
    · rw [same]
      cases closed : closedList? segment rest with
      | none => exact .inl rfl
      | some list =>
        -- The first bracket closes the list, which is the end of the segment before it.
        obtain ⟨lead, rfl, -, -, -⟩ := closedList?_eq_some.mp closed
        refine .inr ⟨list, rfl, ⟨lead ++ ['['], ']' :: rest, by simp⟩, ?_⟩
        intro bracket
        exact free (by simp [bracket])
    · -- A later bracket closes the list.
      have behind : rest <:+: segment ++ ']' :: rest := ⟨segment ++ [']'], [], by simp⟩
      exact .inr ⟨body, last, inside.trans behind, unclosed⟩

/-- The names that are injected, if any, are those of a part of the text without closing bracket. -/
theorem injectedNames_cases (text : List Char) :
    injectedNames text = [] ∨
      ∃ body, injectedNames text = namesInList body ∧ body <:+: text ∧ ']' ∉ body := by
  -- The search begins with nothing found, so that a list it ends with is one of the text.
  rw [injectedNames, lastInjectionList?]
  rcases lastListFrom_cases text none with nothing | ⟨body, last, inside, unclosed⟩
  · rw [nothing]
    exact .inl rfl
  · rw [last]
    exact .inr ⟨body, rfl, inside, unclosed⟩

/-- Every name that is injected can be a dependency. -/
theorem isDependencyName_of_mem_injectedNames {text name : List Char}
    (member : name ∈ injectedNames text) : IsDependencyName name := by
  -- Names are injected only from a list, whose body has no closing bracket.
  rcases injectedNames_cases text with nothing | ⟨body, names, -, unclosed⟩
  · rw [nothing] at member
    cases member
  · rw [names] at member
    exact isDependencyName_of_mem unclosed member

/-- No name is injected twice. -/
theorem nodup_injectedNames (text : List Char) : (injectedNames text).Nodup := by
  -- From a list the names are taken without repetitions.
  rcases injectedNames_cases text with nothing | ⟨body, names, -, -⟩
  · rw [nothing]
    exact List.nodup_nil
  · rw [names]
    exact nodup_eraseDups _

/-- The names that are injected stand in the text in their order. -/
theorem standInOrder_injectedNames (text : List Char) :
    StandInOrder (injectedNames text) text := by
  -- The entries stand in the text of the list, each name inside its own entry.
  rcases injectedNames_cases text with nothing | ⟨body, names, inside, -⟩
  · rw [nothing]
    trivial
  · rw [names]
    have entries := standInOrder_splitOn entryName_isInfix ',' body
    exact (entries.of_sublist (namesInList_sublist body)).of_isInfix inside

/-- The dependencies of any source text are different texts, each of which can be a dependency, and
they are found literally in the source text, in their order and at places that do not overlap. -/
theorem dependenciesOf_wellFormed (content : String) :
    (dependenciesOf content).Nodup ∧
      (∀ name ∈ dependenciesOf content, IsDependencyName name.toList) ∧
      ∃ findings : List (Finding (List Char)),
        findings.map (fun finding => String.ofList finding.item) = dependenciesOf content ∧
        (∀ finding ∈ findings, finding.IsLiteral content.toList) ∧
        findings.Pairwise fun one next => one.stop ≤ next.start := by
  refine ⟨?_, ?_, ?_⟩
  · -- Different texts are different strings.
    exact (nodup_injectedNames content.toList).map fun _ _ same => String.ofList_injective same
  · intro name member
    obtain ⟨text, among, rfl⟩ := List.mem_map.mp member
    rw [String.toList_ofList]
    exact isDependencyName_of_mem_injectedNames among
  · -- The places are those of the names as lists of characters.
    obtain ⟨findings, items, literal, apart⟩ :=
      (standInOrder_injectedNames content.toList).exists_findings
    refine ⟨findings, ?_, literal, apart⟩
    rw [dependenciesOf, ← items, List.map_map]
    rfl

end Stocktake
