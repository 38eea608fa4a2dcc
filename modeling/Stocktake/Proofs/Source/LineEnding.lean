import Stocktake.Proofs.Source.ClosingBracket
import Stocktake.Proofs.Text.LineEnding
import Stocktake.Source.Analysis

/-! Line ends with a carriage return change nothing in the analysis of a source text, but for the
line ends within names. -/

namespace Stocktake

/-- A quote of a name is no line feed. -/
theorem ne_lineFeed_of_isNameQuote {c : Char} (quote : isNameQuote c = true) : c ≠ '\n' := by
  -- A line feed is none of the quotes.
  intro same
  rw [same] at quote
  exact absurd quote (by decide)

/-- A name is read with the line ends that are written in it. -/
theorem quotedName?_withReturns (text : List Char) :
    quotedName? (withReturns text) =
      (quotedName? text).map (Prod.map withReturns withReturns) := by
  cases text with
  | nil => rfl
  | cons c text =>
    by_cases quote : isNameQuote c = true
    · rw [withReturns_cons (ne_lineFeed_of_isNameQuote quote), quotedName?, quotedName?,
        if_pos quote, if_pos quote, takeWhile_withReturns (by decide),
        dropWhile_withReturns (by decide)]
      -- A part that is written is empty when the part itself is.
      cases held : text.takeWhile (!isNameQuote ·) with
      | nil => rfl
      | cons first inner =>
        obtain ⟨first', inner', written⟩ := exists_withReturns_cons first inner
        cases left : text.dropWhile (!isNameQuote ·) with
        | nil =>
          rw [written]
          rfl
        | cons closing rest =>
          have closes : isNameQuote closing = true := by
            simpa using eq_false_of_dropWhile_eq_cons left
          rw [written, withReturns_cons (ne_lineFeed_of_isNameQuote closes)]
          simp only [Option.map_some, Prod.map_apply, written]
    · -- What is written for the character is no quote, either.
      rw [quotedName?, if_neg quote]
      by_cases lineFeed : c = '\n'
      · rw [lineFeed, withReturns_lineFeed, quotedName?, if_neg (by decide)]
        rfl
      · rw [withReturns_cons lineFeed, quotedName?, if_neg quote]
        rfl

/-- A first argument is read whatever line ends there are around its parenthesis. -/
theorem firstArgument?_withReturns (text : List Char) :
    firstArgument? (withReturns text) =
      (firstArgument? text).map (Prod.map withReturns withReturns) := by
  rw [firstArgument?, firstArgument?, dropWhile_withReturns (by decide)]
  cases behind : text.dropWhile isBlank with
  | nil => rfl
  | cons c rest =>
    -- The white space ends before the character, which is no line end then.
    have solid : isBlank c = false := eq_false_of_dropWhile_eq_cons behind
    have other : c ≠ '\n' := by
      intro same
      rw [same] at solid
      exact absurd solid (by decide)
    rw [withReturns_cons other]
    by_cases opens : c = '('
    · subst opens
      simp only
      rw [dropWhile_withReturns (by decide), quotedName?_withReturns]
    · split
      · rename_i same
        exact absurd (List.head_eq_of_cons_eq same) opens
      · split
        · rename_i same
          exact absurd (List.head_eq_of_cons_eq same) opens
        · rfl

/-- There are no line ends in the word that calls for a declaration. -/
theorem callWord_plain (category : Category) : (callWord category).all isInLine = true := by
  -- There are five words, one for each category.
  cases category <;> decide

/-- A declaration is read with the line ends that are written in its name. -/
theorem declaredName?_withReturns (category : Category) (text : List Char) :
    declaredName? (callWord category) (withReturns text) =
      (declaredName? (callWord category) text).map (Prod.map withReturns withReturns) := by
  -- The word is read as it is, and the argument with its line ends.
  rw [declaredName?, declaredName?, isPrefixOf?_withReturns (callWord_plain category)]
  cases (callWord category).isPrefixOf? text with
  | none => rfl
  | some rest => exact firstArgument?_withReturns rest

/-- The names that are declared are those of the text, with their line ends. -/
theorem declaredNames_withReturns (category : Category) (text : List Char) :
    declaredNames category (withReturns text) = (declaredNames category text).map withReturns := by
  apply Recogniser.findAll_withReturns (declaredName?_withReturns category)
  -- The word that calls for a declaration begins with a point.
  intro text
  rfl

/-- A directive marker is the word for one and a letter. -/
theorem directiveMarker?_eq_some_iff {text rest : List Char} {item : Unit} :
    directiveMarker? text = some (item, rest) ↔
      ∃ c, c.isAlpha = true ∧ ['n', 'g', '-', c] ++ rest = text := by
  -- The reader asks for three fixed characters and then for a letter.
  constructor
  · intro read
    unfold directiveMarker? at read
    split at read
    · rename_i c left
      split at read
      · rename_i letter
        obtain ⟨-, rfl⟩ := Prod.mk.inj (Option.some.inj read)
        exact ⟨c, letter, rfl⟩
      · cases read
    · cases read
  · intro marker
    obtain ⟨c, letter, rfl⟩ := marker
    exact if_pos letter

/-- There are no line ends in a directive marker. -/
theorem directiveMarker_plain {c : Char} (letter : c.isAlpha = true) :
    ['n', 'g', '-', c].all isInLine = true := by
  -- Neither character of a line end is a letter.
  have other : isInLine c = true := by
    apply isInLine_iff.mpr
    constructor
    · intro same
      rw [same] at letter
      exact absurd letter (by decide)
    · intro same
      rw [same] at letter
      exact absurd letter (by decide)
  simp only [List.all_cons, List.all_nil, other]
  decide

/-- A directive marker is read where it is written. -/
theorem directiveMarker?_withReturns (text : List Char) :
    directiveMarker? (withReturns text) =
      (directiveMarker? text).map (Prod.map id withReturns) := by
  -- A marker stands within a line, so writing the line ends leaves it whole.
  apply Option.ext
  intro read
  obtain ⟨item, rest⟩ := read
  rw [directiveMarker?_eq_some_iff, Option.map_eq_some_iff]
  constructor
  · intro marker
    obtain ⟨c, letter, same⟩ := marker
    have plain := directiveMarker_plain letter
    obtain ⟨left, shape, rfl⟩ := (withReturns_eq_append plain).mp same.symm
    exact ⟨(item, left), directiveMarker?_eq_some_iff.mpr ⟨c, letter, shape.symm⟩, rfl⟩
  · intro marker
    obtain ⟨⟨_, left⟩, read, same⟩ := marker
    obtain ⟨-, rfl⟩ := Prod.mk.inj same
    obtain ⟨c, letter, shape⟩ := directiveMarker?_eq_some_iff.mp read
    have plain := directiveMarker_plain letter
    exact ⟨c, letter, ((withReturns_eq_append plain).mpr ⟨left, shape.symm, rfl⟩).symm⟩

/-- There are as many directive markers in a text whatever its line ends are. -/
theorem length_directives_withReturns (text : List Char) :
    (directiveRecogniser.findAll (withReturns text)).length =
      (directiveRecogniser.findAll text).length := by
  -- A marker begins with a letter.
  have starts : ∀ text, directiveRecogniser.front? ('\n' :: text) = none := by
    intro text
    rfl
  rw [Recogniser.findAll_withReturns directiveMarker?_withReturns starts, List.length_map]

/-- The markers of a text are the same whatever its line ends are. -/
theorem ofText_withReturns (text : List Char) :
    Markers.ofText (withReturns text) = Markers.ofText text := by
  -- None of the words has a line end.
  rw [Markers.ofText, Markers.ofText, length_directives_withReturns,
    occursIn_withReturns (by decide) (by decide), occursIn_withReturns (by decide) (by decide),
    occursIn_withReturns (by decide) (by decide), occursIn_withReturns (by decide) (by decide),
    occursIn_withReturns (by decide) (by decide)]

/-- A list closes its line whatever line ends there are behind it. -/
theorem closesLine_withReturns (text : List Char) :
    closesLine (withReturns text) = closesLine text := by
  -- The line feed that ends the line stays among the white space.
  have ends : '\n' ∈ withReturns (text.takeWhile isBlank) ↔ '\n' ∈ text.takeWhile isBlank :=
    mem_withReturns (by decide)
  apply Bool.eq_iff_iff.mpr
  simp only [closesLine, Bool.or_eq_true, List.isEmpty_iff, List.contains_iff_mem]
  rw [dropWhile_withReturns (by decide), takeWhile_withReturns (by decide), withReturns_eq_nil, ends]

/-- A bracket closes the list that it closes in the text, with the line ends in it. -/
theorem closedList?_withReturns (segment rest : List Char) :
    closedList? (withReturns segment) (withReturns rest) =
      (closedList? segment rest).map withReturns := by
  rw [closedList?, closedList?, dropWhile_withReturns (by decide), closesLine_withReturns]
  -- The segment has an opening bracket or not, and the list is what comes behind it.
  obtain ⟨-, nothing⟩ | ⟨lead, body, -, -, opened⟩ := segment_cases segment
  · rw [nothing]
    rfl
  · rw [opened, withReturns_cons (by decide)]
    cases body with
    | nil => rfl
    | cons c body =>
      obtain ⟨c', body', written⟩ := exists_withReturns_cons c body
      rw [written]
      by_cases closes : closesLine rest = true
      · simp only [if_pos closes, Option.map_some, written]
      · simp only [if_neg closes, Option.map_none]

/-- The last list of a text is the same, with the line ends in it. -/
theorem lastListFrom_withReturns (text : List Char) : ∀ found,
    lastListFrom (found.map withReturns) none (withReturns text) =
      (lastListFrom found none text).map withReturns := by
  -- The induction goes from one closing bracket to the next.
  induction text using separated_induction ']' with
  | whole text free =>
    intro found
    have free' : ']' ∉ withReturns text := not_mem_withReturns (by decide) free
    rw [lastListFrom_of_not_mem free, lastListFrom_of_not_mem free']
  | parts segment rest free ih =>
    intro found
    have free' : ']' ∉ withReturns segment := not_mem_withReturns (by decide) free
    rw [withReturns_append, withReturns_cons (by decide), lastListFrom_append_cons free,
      lastListFrom_append_cons free', closedList?_withReturns, ← ih]
    cases closedList? segment rest with
    | none => rfl
    | some list => rfl

/-- An entry stands for the same name, with the line ends in it. -/
theorem entryName_withReturns (entry : List Char) :
    entryName (withReturns entry) = withReturns (entryName entry) := by
  -- Each of the three steps takes away whole line ends or none.
  rw [entryName, entryName, trim, trim, trim, trim, stripEnds_withReturns (by decide),
    stripEnds_withReturns (by decide), stripEnds_withReturns (by decide)]

/-- There are no line ends in the word for a constructor. -/
theorem constructorWord_plain : constructorWord.all isInLine = true := by
  -- The word is a fixed text.
  decide

/-- The word for a constructor is followed by what goes on with no name, or it is not. -/
theorem isInlineConstructor_withReturns (name : List Char) :
    isInlineConstructor (withReturns name) = isInlineConstructor name := by
  rw [isInlineConstructor, isInlineConstructor, isPrefixOf?_withReturns constructorWord_plain]
  cases constructorWord.isPrefixOf? name with
  | none => rfl
  | some rest =>
    cases rest with
    | nil => rfl
    | cons c rest =>
      by_cases lineFeed : c = '\n'
      · -- A name goes on neither with a carriage return nor with a line feed.
        subst lineFeed
        have ends : continuesName '\r' = false := by decide
        have ends' : continuesName '\n' = false := by decide
        rw [Option.map_some, withReturns_lineFeed]
        simp only [ends, ends']
      · rw [Option.map_some, withReturns_cons lineFeed]

/-- Items that are told apart are repeated where the items are. -/
theorem eraseDups_map_of_injective {change : List Char → List Char}
    (apart : Function.Injective change) (items : List (List Char)) :
    (items.map change).eraseDups = items.eraseDups.map change := by
  -- The induction is on the number of items, some of which are dropped behind the first one.
  induction size : items.length using Nat.strongRecOn generalizing items with
  | ind length ih =>
    subst size
    cases items with
    | nil => rfl
    | cons item items =>
      have same : (fun other => !change other == change item) = fun other => !other == item := by
        funext other
        rw [Bool.eq_iff_iff]
        simp [apart.eq_iff]
      rw [List.map_cons, List.eraseDups_cons, List.eraseDups_cons, List.filter_map, List.map_cons]
      congr 1
      rw [Function.comp_def, same]
      apply ih _ _ _ rfl
      exact Nat.lt_succ_of_le (List.length_filter_le _ items)

/-- The names in a list are the same, with the line ends in them. -/
theorem namesInList_withReturns (body : List Char) :
    namesInList (withReturns body) = (namesInList body).map withReturns := by
  -- Whether an entry is left out or ends the list does not depend on its line ends.
  have kept : ((fun name : List Char => !name.isEmpty && name != constructorWord) ∘ withReturns) =
      fun name => !name.isEmpty && name != constructorWord := by
    funext name
    rw [Bool.eq_iff_iff]
    simp [withReturns_eq_nil, withReturns_eq_word constructorWord_plain]
  have goesOn : ((fun name : List Char => !isInlineConstructor name) ∘ withReturns) =
      fun name => !isInlineConstructor name := by
    funext name
    simp only [Function.comp_apply, isInlineConstructor_withReturns]
  have entries : ((body.splitOn ',').map withReturns).map entryName =
      ((body.splitOn ',').map entryName).map withReturns := by
    rw [List.map_map, List.map_map]
    apply List.map_congr_left
    intro entry _
    rw [Function.comp_apply, Function.comp_apply, entryName_withReturns]
  rw [namesInList, namesInList, splitOn_withReturns (by decide) (by decide), entries,
    List.filter_map, kept, List.takeWhile_map, goesOn,
    eraseDups_map_of_injective withReturns_injective]

/-- What a text depends on is the same, with the line ends in the names. -/
theorem injectedNames_withReturns (text : List Char) :
    injectedNames (withReturns text) = (injectedNames text).map withReturns := by
  -- The last list is found in the same place, and its names are read alike.
  have last := lastListFrom_withReturns text none
  rw [Option.map_none] at last
  rw [injectedNames, injectedNames, lastInjectionList?, lastInjectionList?, last]
  cases lastListFrom none none text with
  | none => rfl
  | some body => exact namesInList_withReturns body

/-- Names from a text with carriage returns are the names from the text with carriage returns in
them. -/
theorem map_ofList_withReturns (names : List (List Char)) :
    (names.map withReturns).map String.ofList =
      (names.map String.ofList).map stringWithReturns := by
  -- Each name is turned into a text before or after its line ends are written.
  rw [List.map_map, List.map_map]
  apply List.map_congr_left
  intro name _
  rw [Function.comp_apply, Function.comp_apply, stringWithReturns, String.toList_ofList]

/-- With a carriage return before each line feed a source text has the same length and the same
markers. Its dependencies and its constructs are the same in number and order, with these carriage
returns in their names. -/
theorem ofContent_withReturns (path content : String) :
    let plain := Analysis.ofContent path content
    let returned := Analysis.ofContent path (stringWithReturns content)
    returned.loc = plain.loc ∧ returned.markers = plain.markers ∧
      returned.dependencies = plain.dependencies.map stringWithReturns ∧
      returned.constructs = plain.constructs.map fun (category, construct) =>
        (category, { construct with
          name := stringWithReturns construct.name
          dependencies := construct.dependencies.map stringWithReturns }) := by
  have loc : lineCount (withReturns content.toList) = lineCount content.toList := by
    rw [lineCount, lineCount, count_withReturns (by decide)]
  have needed : dependenciesOf (stringWithReturns content) =
      (dependenciesOf content).map stringWithReturns := by
    rw [dependenciesOf, dependenciesOf, stringWithReturns, String.toList_ofList,
      injectedNames_withReturns, map_ofList_withReturns]
  have declared : declarationsIn (stringWithReturns content) =
      (declarationsIn content).map fun declaration =>
        { declaration with name := stringWithReturns declaration.name } := by
    rw [declarationsIn, declarationsIn, stringWithReturns, String.toList_ofList, List.map_flatMap]
    apply List.flatMap_congr
    intro category _
    rw [declaredNames_withReturns, List.map_map, List.map_map]
    apply List.map_congr_left
    intro name _
    simp only [Function.comp_apply, stringWithReturns, String.toList_ofList]
  intro plain returned
  have text : (stringWithReturns content).toList = withReturns content.toList := by
    rw [stringWithReturns, String.toList_ofList]
  refine ⟨?_, ?_, ?_, ?_⟩
  · simp only [returned, plain, Analysis.ofContent, text, loc]
  · simp only [returned, plain, Analysis.ofContent, text, ofText_withReturns]
  · simp only [returned, plain, Analysis.ofContent, needed]
  · -- Each construct has the facts of its file, with the names that are changed.
    simp only [returned, plain, Analysis.ofContent, text, loc, needed, declared,
      ofText_withReturns, List.map_map, Function.comp_def]

/-- The line ends around the parenthesis of a call do not show, and those in a name do. -/
example : declarationsIn (stringWithReturns "m.service\n(\n'a\nb'") = [⟨.service, "a\r\nb"⟩] := by
  decide +kernel

end Stocktake
