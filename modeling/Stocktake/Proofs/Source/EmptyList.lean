import Mathlib.Data.List.DropRight
import Stocktake.Proofs.Source.ClosingBracket
import Stocktake.Proofs.Source.EntryName
import Stocktake.Proofs.Source.WrittenList
import Stocktake.Text.LineEnding

/-! An injection list without names takes the place of the lists before it when there is white space
between its brackets. Without white space it is passed over, and the last list before it counts. -/

namespace Stocktake

/-- White space reaches the end of a line when its first character is the line feed, or when it does
so behind this character. -/
theorem closesLine_cons (c : Char) (text : List Char) :
    closesLine (c :: text) = (isBlank c && (c == '\n' || closesLine text)) := by
  rw [closesLine, closesLine]
  -- Anything but white space ends what is looked at, before a line feed was found.
  cases blank : isBlank c with
  | false => simp [blank]
  | true =>
    rw [List.dropWhile_cons_of_pos blank, List.takeWhile_cons_of_pos blank, List.contains_cons,
      Bool.or_left_comm, BEq.comm, Bool.true_and]

/-- Whether a line is closed does not depend on the lines behind it. -/
theorem closesLine_append_lineFeed (text more : List Char) :
    closesLine (text ++ '\n' :: more) = closesLine text := by
  induction text with
  | nil =>
    -- A line feed closes its line as the end of the text does.
    rw [List.nil_append, closesLine_cons]
    rfl
  | cons c text ih => rw [List.cons_append, closesLine_cons, closesLine_cons, ih]

/-- A bracket closes the same list whatever comes on further lines. -/
theorem closedList?_append_lineFeed (segment text more : List Char) :
    closedList? segment (text ++ '\n' :: more) = closedList? segment text := by
  -- Whether a bracket closes its line is settled before the next line begins.
  rw [closedList?, closedList?, closesLine_append_lineFeed]

/-- What is found on further lines comes behind all that is found before, when no list is left open
there. -/
theorem lastListFrom_append_lineFeed {text : List Char}
    (settled : '[' ∉ text.rtakeWhile (· != ']')) (more : List Char) : ∀ found,
      lastListFrom found none (text ++ '\n' :: more) =
        lastListFrom (lastListFrom found none text) none more := by
  induction text using separated_induction ']' with
  | whole text free =>
    -- Without any bracket the whole text is passed over.
    intro found
    have plain : '[' ∉ text := by
      rwa [List.rtakeWhile_eq_self_iff.mpr] at settled
      intro c member
      simpa using ne_of_mem_of_not_mem member free
    have passed : '[' ∉ text ++ ['\n'] := by simp [plain]
    rw [List.append_cons, lastListFrom_append_of_not_mem passed, lastListFrom_of_not_mem free]
  | parts segment rest free ih =>
    -- The first bracket closes the same list with the further lines and without them.
    intro found
    rw [rtakeWhile_behind] at settled
    rw [List.append_assoc, List.cons_append, lastListFrom_append_cons free,
      lastListFrom_append_cons free, closedList?_append_lineFeed, ih settled]

/-- What is found in a text with one more line is found in that line, or else in the text. -/
theorem lastListFrom_withLine {text : List Char} (settled : '[' ∉ text.rtakeWhile (· != ']'))
    (found : Option (List Char)) (line : List Char) :
    lastListFrom found none (withLine text line) =
      lastListFrom (lastListFrom found none text) none line := by
  -- The line comes behind a line feed, which is one of the text or comes with the line.
  rw [withLine]
  split
  · rename_i ends
    rcases List.eq_nil_or_concat text with rfl | ⟨front, last, rfl⟩
    · -- The line is all there is.
      rfl
    · -- The text ends in a line feed, behind which the line comes.
      obtain rfl : last = '\n' := by simpa using ends
      have settled' : '[' ∉ front.rtakeWhile (· != ']') := by
        rw [List.concat_eq_append, List.rtakeWhile_concat_pos _ _ _ (by decide)] at settled
        exact fun member => settled (List.mem_append_left _ member)
      rw [List.concat_eq_append, List.append_assoc, List.singleton_append,
        lastListFrom_append_lineFeed settled', lastListFrom_append_lineFeed settled']
      rfl
  · exact lastListFrom_append_lineFeed settled line found

/-- Of a segment all that is behind its first opening bracket is the list. -/
theorem closedList?_append_bracket {lead : List Char} (plain : '[' ∉ lead)
    (segment rest : List Char) :
    closedList? (lead ++ '[' :: segment) rest =
      if segment ≠ [] ∧ closesLine rest = true then some segment else none := by
  -- The search for the opening bracket goes past everything else.
  induction lead with
  | nil => exact closedList?_bracket segment rest
  | cons c lead ih =>
    simp only [List.mem_cons, not_or] at plain
    rw [List.cons_append, closedList?_cons_of_ne (Ne.symm plain.1), ih plain.2]

/-- White space between the brackets names nothing. -/
theorem namesInList_of_blank {slack : List Char} (blank : allBlank slack = true) :
    namesInList slack = [] := by
  have blank' : ∀ c ∈ slack, isBlank c = true := List.all_eq_true.mp blank
  -- There is one entry only, and nothing is left of it.
  have nothing : entryName slack = [] := by
    have padded := entryName_append_left blank' []
    rwa [List.append_nil] at padded
  rw [namesInList, List.splitOn_eq_singleton (not_mem_of_blank (by decide) blank'),
    List.map_singleton, nothing]
  rfl

/-- A line that gives a construct an injection list without names takes all dependencies away when
there is white space between its brackets. With nothing between them the dependencies are those that
the text has without the line, whatever lists are in it. -/
theorem dependenciesOf_emptyListLine {text construct slack : List Char}
    (settled : '[' ∉ text.rtakeWhile (· != ']')) (plain : '[' ∉ construct ∧ ']' ∉ construct)
    (blank : allBlank slack = true) :
    dependenciesOf (String.ofList (withLine text (emptyListLine construct slack))) =
      if slack = [] then dependenciesOf (String.ofList text) else [] := by
  have blank' : ∀ c ∈ slack, isBlank c = true := List.all_eq_true.mp blank
  have unclosed : ']' ∉ slack := not_mem_of_blank (by decide) blank'
  -- The line has one bracket of each kind, and ends with the closing one.
  have lead : '[' ∉ construct ++ ".$inject = ".toList := by
    simp [plain.1]
  have free : ']' ∉ (construct ++ ".$inject = ".toList) ++ '[' :: slack := by
    simp [plain.2, unclosed]
  have shape : emptyListLine construct slack =
      ((construct ++ ".$inject = ".toList) ++ '[' :: slack) ++ ']' :: [] := by
    simp [emptyListLine]
  -- What it closes counts, and otherwise what was found before.
  have last : lastInjectionList? (withLine text (emptyListLine construct slack)) =
      if slack = [] then lastInjectionList? text else some slack := by
    rw [lastInjectionList?, lastInjectionList?, lastListFrom_withLine settled, shape,
      lastListFrom_append_cons free, closedList?_append_bracket lead, lastListFrom]
    have closes : closesLine [] = true := rfl
    by_cases bare : slack = []
    · simp [bare]
    · simp [bare, closes]
  rw [dependenciesOf, dependenciesOf, injectedNames, injectedNames, String.toList_ofList,
    String.toList_ofList, last]
  by_cases bare : slack = []
  · rw [if_pos bare, if_pos bare]
  · rw [if_neg bare, if_neg bare]
    simp [namesInList_of_blank blank]

/-- A list of a single tab on the last line hides the dependencies before it. -/
theorem dependenciesOf_emptyListLine_tab :
    '[' ∉ "First.$inject = ['$scope']\n".toList.rtakeWhile (· != ']') ∧
      dependenciesOf (String.ofList (withLine "First.$inject = ['$scope']\n".toList
        (emptyListLine ['X'] ['\t']))) = [] := by
  -- The earlier text leaves no bracket open, and a tab is some text between brackets.
  have settled : '[' ∉ "First.$inject = ['$scope']\n".toList.rtakeWhile (· != ']') := by decide
  refine ⟨settled, ?_⟩
  exact dependenciesOf_emptyListLine settled (by decide) (by decide)

/-- Brackets with nothing between them leave the dependencies of a list on an earlier line. -/
theorem dependenciesOf_bare_brackets :
    '[' ∉ "First.$inject = ['$scope']".toList.rtakeWhile (· != ']') ∧
      withLine "First.$inject = ['$scope']".toList (emptyListLine ['X'] []) =
        "First.$inject = ['$scope']\nX.$inject = []".toList ∧
      dependenciesOf "First.$inject = ['$scope']\nX.$inject = []" = ["$scope"] := by
  -- Two brackets with nothing between them are no match, so the earlier list is the last.
  decide +kernel

end Stocktake
