import Stocktake.Proofs.Source.ClosingBracket
import Stocktake.Proofs.Source.ListReading
import Stocktake.Proofs.Text.Pattern
import Stocktake.Source.InjectionPattern

/-! The last match of the pattern for injection lists, and the last bracket that closes a list, give
the same names. -/

namespace Stocktake

/-- The content of a list is some text without closing bracket. -/
theorem mem_ways_contentPattern {text : List Char} {way : Way} :
    way ∈ contentPattern.ways text ↔
      ∃ body, text = body ++ way.rest ∧ (body ≠ [] ∧ ']' ∉ body) ∧ way.kept = some body := by
  obtain ⟨kept, rest⟩ := way
  rw [contentPattern, Pattern.mem_ways_group]
  constructor
  · rintro ⟨⟨_, left⟩, member, same⟩
    obtain ⟨rfl, rfl⟩ := Way.mk.inj same
    obtain ⟨⟨_, middle⟩, first, ⟨_, last⟩, others, same⟩ := Pattern.mem_ways_seq.mp member
    obtain ⟨-, rfl⟩ := Way.mk.inj same
    obtain ⟨-, c, plain, rfl⟩ := Pattern.mem_ways_one.mp first
    obtain ⟨-, run, plains, rfl⟩ := Pattern.mem_ways_many.mp others
    -- What is kept is the text without the rest.
    have size : (c :: (run ++ rest)).length - rest.length = (c :: run).length := by
      simp only [List.length_cons, List.length_append]
      omega
    refine ⟨c :: run, rfl, ⟨List.cons_ne_nil c run, ?_⟩, ?_⟩
    · intro member
      rcases List.mem_cons.mp member with same | inside
      · simp [← same] at plain
      · simpa using plains _ inside
    · rw [size, ← List.cons_append, List.take_left]
  · rintro ⟨body, rfl, ⟨filled, plain⟩, rfl⟩
    obtain ⟨c, run, rfl⟩ := List.exists_cons_of_ne_nil filled
    simp only [List.mem_cons, not_or] at plain
    have size : (c :: run ++ rest).length - rest.length = (c :: run).length := by
      rw [List.length_append, Nat.add_sub_cancel]
    refine ⟨⟨none, rest⟩, Pattern.mem_ways_seq.mpr ⟨⟨none, run ++ rest⟩, ?_, ⟨none, rest⟩, ?_, rfl⟩,
      ?_⟩
    · exact Pattern.mem_ways_one.mpr ⟨rfl, c, by simpa using Ne.symm plain.1, rfl⟩
    · refine Pattern.mem_ways_many.mpr ⟨rfl, run, fun d member => ?_, rfl⟩
      simpa using ne_of_mem_of_not_mem member plain.2
    · rw [size, List.take_left]

/-- The end of a list is a closing bracket that has white space around it, up to the end of the
line. -/
theorem mem_ways_closingPattern {text : List Char} {way : Way} :
    way ∈ closingPattern.ways text ↔
      ∃ behind slack, text = behind ++ ']' :: (slack ++ way.rest) ∧
        (∀ c ∈ behind, isBlank c = true) ∧ (∀ c ∈ slack, isBlank c = true) ∧
        way.rest.head?.all (· == '\n') = true ∧ way.kept = none := by
  obtain ⟨kept, rest⟩ := way
  simp only [closingPattern, Pattern.mem_ways_seq]
  constructor
  · rintro ⟨⟨_, _⟩, first, _, ⟨⟨_, _⟩, second, _, ⟨⟨_, _⟩, third, ⟨_, _⟩, last, rfl⟩, rfl⟩, same⟩
    obtain ⟨rfl, behind, blank, shape⟩ := Pattern.mem_ways_many.mp first
    obtain ⟨rfl, c, closes, rfl⟩ := Pattern.mem_ways_one.mp second
    obtain ⟨rfl, slack, blank', rfl⟩ := Pattern.mem_ways_many.mp third
    obtain ⟨rfl, rfl, lineEnd⟩ := Pattern.mem_ways_lineEnd.mp last
    obtain ⟨rfl, rfl⟩ := Way.mk.inj same
    obtain rfl : c = ']' := by simpa using closes
    exact ⟨behind, slack, shape, blank, blank', lineEnd, rfl⟩
  · rintro ⟨behind, slack, rfl, blank, blank', lineEnd, rfl⟩
    -- The parts are read one behind the other, each from where the one before it ends.
    have lead : (⟨none, ']' :: (slack ++ rest)⟩ : Way) ∈
        (Pattern.many isBlank).ways (behind ++ ']' :: (slack ++ rest)) :=
      Pattern.mem_ways_many.mpr ⟨rfl, behind, blank, rfl⟩
    have bracket : (⟨none, slack ++ rest⟩ : Way) ∈
        (Pattern.one (· == ']')).ways (']' :: (slack ++ rest)) :=
      Pattern.mem_ways_one.mpr ⟨rfl, ']', rfl, rfl⟩
    have tail : (⟨none, rest⟩ : Way) ∈ (Pattern.many isBlank).ways (slack ++ rest) :=
      Pattern.mem_ways_many.mpr ⟨rfl, slack, blank', rfl⟩
    have ends : (⟨none, rest⟩ : Way) ∈ Pattern.lineEnd.ways rest :=
      Pattern.mem_ways_lineEnd.mpr ⟨rfl, rfl, lineEnd⟩
    exact ⟨_, lead, _, ⟨_, bracket, _, ⟨_, tail, _, ends, rfl⟩, rfl⟩, rfl⟩

/-- The pattern for injection lists reads a bracketed list that closes its line, and keeps its
content, with more or less of the white space around that. -/
theorem mem_ways_injectionPattern {text : List Char} {way : Way} :
    way ∈ injectionPattern.ways text ↔
      ∃ (padding : Padding) (body slack : List Char),
        text = '[' :: (padding.around body ++ ']' :: (slack ++ way.rest)) ∧
        (body ≠ [] ∧ ']' ∉ body) ∧ (∀ c ∈ slack, isBlank c = true) ∧
        way.rest.head?.all (· == '\n') = true ∧ way.kept = some body := by
  obtain ⟨kept, rest⟩ := way
  simp only [injectionPattern, Pattern.mem_ways_seq]
  constructor
  · rintro ⟨⟨_, _⟩, first, _, ⟨⟨_, _⟩, second, _, ⟨⟨_, _⟩, third, ⟨_, _⟩, last, rfl⟩, rfl⟩, same⟩
    obtain ⟨rfl, c, opens, shape⟩ := Pattern.mem_ways_one.mp first
    obtain ⟨rfl, before, blank, rfl⟩ := Pattern.mem_ways_many.mp second
    obtain ⟨body, rfl, content, rfl⟩ := mem_ways_contentPattern.mp third
    obtain ⟨behind, slack, rfl, blank', blank'', lineEnd, rfl⟩ := mem_ways_closingPattern.mp last
    obtain ⟨rfl, rfl⟩ := Way.mk.inj same
    obtain rfl : c = '[' := by simpa using opens
    refine ⟨⟨before, behind, List.all_eq_true.mpr blank, List.all_eq_true.mpr blank'⟩, body, slack,
      ?_, content, blank'', lineEnd, rfl⟩
    simpa [Padding.around] using shape
  · rintro ⟨padding, body, slack, rfl, content, blank, lineEnd, rfl⟩
    -- The white space before the content and behind it is read by patterns of its own.
    have shape : padding.around body ++ ']' :: (slack ++ rest) =
        padding.before ++ (body ++ (padding.behind ++ ']' :: (slack ++ rest))) := by
      simp [Padding.around]
    rw [shape]
    generalize left : padding.behind ++ ']' :: (slack ++ rest) = closing
    have bracket : (⟨none, padding.before ++ (body ++ closing)⟩ : Way) ∈
        (Pattern.one (· == '[')).ways ('[' :: (padding.before ++ (body ++ closing))) :=
      Pattern.mem_ways_one.mpr ⟨rfl, '[', rfl, rfl⟩
    have lead : (⟨none, body ++ closing⟩ : Way) ∈
        (Pattern.many isBlank).ways (padding.before ++ (body ++ closing)) :=
      Pattern.mem_ways_many.mpr ⟨rfl, padding.before, padding.isBlank_before, rfl⟩
    have held : (⟨some body, closing⟩ : Way) ∈ contentPattern.ways (body ++ closing) :=
      mem_ways_contentPattern.mpr ⟨body, rfl, content, rfl⟩
    have closes : (⟨none, rest⟩ : Way) ∈ closingPattern.ways closing :=
      mem_ways_closingPattern.mpr
        ⟨padding.behind, slack, left.symm, padding.isBlank_behind, blank, lineEnd, rfl⟩
    exact ⟨_, bracket, _, ⟨_, lead, _, ⟨_, held, _, closes, rfl⟩, rfl⟩, rfl⟩

/-- An item is what a list holds, up to white space around it. -/
def IsPaddedIn (item list : List Char) : Prop :=
  ∃ padding : Padding, list = padding.around item

/-- There is no match just where the pattern reads nothing. -/
theorem front?_injection_eq_none {text : List Char} :
    injectionRecogniser.front? text = none ↔ ∀ way, way ∉ injectionPattern.ways text := by
  -- The match is the first of the ways to read the pattern.
  change (injectionPattern.ways text).head?.map _ = none ↔ _
  rw [Option.map_eq_none_iff, List.head?_eq_none_iff, List.eq_nil_iff_forall_not_mem]

/-- A match begins with an opening bracket. -/
theorem front?_injection_of_ne {c : Char} (plain : c ≠ '[') (text : List Char) :
    injectionRecogniser.front? (c :: text) = none := by
  -- Every way to read the pattern takes an opening bracket first.
  apply front?_injection_eq_none.mpr
  intro way member
  obtain ⟨_, _, _, shape, _⟩ := mem_ways_injectionPattern.mp member
  exact plain (List.head_eq_of_cons_eq shape)

/-- A match needs a closing bracket. -/
theorem front?_injection_of_not_mem {text : List Char} (unclosed : ']' ∉ text) :
    injectionRecogniser.front? text = none := by
  -- Every way to read the pattern takes a closing bracket, too.
  apply front?_injection_eq_none.mpr
  intro way member
  obtain ⟨_, _, _, rfl, _⟩ := mem_ways_injectionPattern.mp member
  exact unclosed (by simp)

/-- What is read at an opening bracket ends with the first closing bracket behind it. -/
theorem mem_ways_injection_bracket {list rest : List Char} {way : Way} (free : ']' ∉ list)
    (member : way ∈ injectionPattern.ways ('[' :: (list ++ ']' :: rest))) :
    list ≠ [] ∧ closesLine rest = true ∧ ∃ item slack, way.kept = some item ∧
      IsPaddedIn item list ∧ rest = slack ++ way.rest ∧ ∀ c ∈ slack, isBlank c = true := by
  obtain ⟨padding, item, slack, shape, ⟨filled, plain⟩, blank, ends, kept⟩ :=
    mem_ways_injectionPattern.mp member
  have free' : ']' ∉ padding.around item := padding.not_mem_around (by decide) plain
  -- Both texts in the brackets end with the first closing bracket, and so are the same.
  obtain ⟨rfl, rfl⟩ := append_separator_inj free free' (List.tail_eq_of_cons_eq shape)
  refine ⟨by simp [Padding.around, filled], ?_, item, slack, kept, ⟨padding, rfl⟩, rfl, blank⟩
  exact (closesLine_iff _).mpr ⟨slack, way.rest, rfl, blank, ends⟩

/-- At an opening bracket with a list that closes its line there is a match. -/
theorem exists_mem_ways_injection {list rest : List Char} (free : ']' ∉ list) (filled : list ≠ [])
    (closes : closesLine rest = true) :
    ∃ way, way ∈ injectionPattern.ways ('[' :: (list ++ ']' :: rest)) := by
  -- The pattern is read without padding, with all of the list between the brackets.
  obtain ⟨slack, left, shape, blank, ends⟩ := (closesLine_iff rest).mp closes
  refine ⟨⟨some list, left⟩, mem_ways_injectionPattern.mpr ⟨{}, list, slack, ?_, ⟨filled, free⟩,
    blank, ends, rfl⟩⟩
  simp [Padding.around, shape]

/-- A search passes over what has no opening bracket. -/
theorem findAll_injection_append {lead : List Char} (plain : '[' ∉ lead) (text : List Char) :
    injectionRecogniser.findAll (lead ++ text) = injectionRecogniser.findAll text := by
  -- At none of these characters a match begins.
  induction lead with
  | nil => rfl
  | cons c lead ih =>
    simp only [List.mem_cons, not_or] at plain
    rw [List.cons_append, Recogniser.findAll_cons, front?_injection_of_ne (Ne.symm plain.1)]
    exact ih plain.2

/-- Without closing bracket nothing is found. -/
theorem findAll_injection_of_not_mem {text : List Char} (unclosed : ']' ∉ text) :
    injectionRecogniser.findAll text = [] := by
  -- At no character a match begins, since none could end.
  induction text with
  | nil => simp [Recogniser.findAll, Recogniser.findFrom]
  | cons c text ih =>
    rw [Recogniser.findAll_cons, front?_injection_of_not_mem unclosed]
    exact ih fun member => unclosed (List.mem_cons_of_mem c member)

/-- Up to a closing bracket, a search finds the list that this bracket closes, if any. -/
theorem findAll_injection_append_cons {segment : List Char} (free : ']' ∉ segment)
    (rest : List Char) :
    ∃ item?, Option.Rel IsPaddedIn item? (closedList? segment rest) ∧
      injectionRecogniser.findAll (segment ++ ']' :: rest) =
        item?.toList ++ injectionRecogniser.findAll rest := by
  -- The search stops at the first opening bracket of the segment, or at none of it.
  induction segment with
  | nil =>
    exact ⟨none, .none, findAll_injection_append (by decide : '[' ∉ [']']) rest⟩
  | cons c segment ih =>
    have inside : ']' ∉ segment := fun member => free (List.mem_cons_of_mem c member)
    obtain ⟨item?, here, shape⟩ := ih inside
    by_cases bracket : c = '['
    · subst bracket
      rw [closedList?_bracket, List.cons_append, Recogniser.findAll_cons]
      cases read : injectionRecogniser.front? ('[' :: (segment ++ ']' :: rest)) with
      | some found =>
        obtain ⟨item, left⟩ := found
        obtain ⟨way, first, same⟩ := Option.map_eq_some_iff.mp read
        obtain ⟨filled, closes, item', slack, kept, padded, rfl, blank⟩ :=
          mem_ways_injection_bracket inside (List.mem_of_mem_head? first)
        obtain ⟨rfl, rfl⟩ := Prod.mk.inj same
        rw [if_pos ⟨filled, closes⟩]
        refine ⟨some item', .some padded, ?_⟩
        -- The white space behind the list is read with it, and holds no further list.
        rw [kept, findAll_injection_append (not_mem_of_blank (by decide) blank)]
        rfl
      | none =>
        -- Without a match here the bracket behind the segment closes no list at all.
        have unread : ¬ (segment ≠ [] ∧ closesLine rest = true) := by
          rintro ⟨filled, closes⟩
          obtain ⟨way, member⟩ := exists_mem_ways_injection inside filled closes
          exact front?_injection_eq_none.mp read way member
        rw [closedList?_eq_none unread] at here
        rw [if_neg unread]
        exact ⟨item?, here, shape⟩
    · rw [closedList?_cons_of_ne bracket, List.cons_append, Recogniser.findAll_cons,
        front?_injection_of_ne bracket]
      exact ⟨item?, here, shape⟩

/-- The last match of the pattern and the last list of a search are the same list. -/
theorem rel_getLast?_lastListFrom (text : List Char) : ∀ item? found,
    Option.Rel IsPaddedIn item? found →
      Option.Rel IsPaddedIn ((injectionRecogniser.findAll text).getLast?.or item?)
        (lastListFrom found none text) := by
  induction text using separated_induction ']' with
  | whole text free =>
    -- Neither search finds anything more.
    intro item? found same
    rw [findAll_injection_of_not_mem free, lastListFrom_of_not_mem free]
    exact same
  | parts segment rest free ih =>
    intro item? found same
    obtain ⟨item?', here, shape⟩ := findAll_injection_append_cons free rest
    rw [shape, lastListFrom_append_cons free, List.getLast?_append, Option.or_assoc]
    apply ih
    -- The list that is found here takes the place of the one that was found before.
    generalize closedList? segment rest = closed at here
    cases here with
    | none => exact same
    | some padded => exact .some padded

/-- The last match of the pattern names the dependencies of a source text. -/
theorem dependenciesByPattern_eq (content : String) :
    dependenciesByPattern content = dependenciesOf content := by
  have last := rel_getLast?_lastListFrom content.toList none none .none
  rw [Option.or_none] at last
  rw [dependenciesByPattern, dependenciesOf, injectedNames, lastInjectionList?]
  generalize lastListFrom none none content.toList = found at last
  generalize (injectionRecogniser.findAll content.toList).getLast? = item? at last
  cases last with
  | none => rfl
  | some padded =>
    -- What the match keeps and the list differ in white space at the ends only.
    obtain ⟨padding, rfl⟩ := padded
    simp only
    rw [padding.namesInList_around]

/-- The dependencies of a source text are found by a backtracking search for a pattern and by a scan
for closing brackets alike: they are the names that are read between the last bracket that closes a
list, and the bracket that opens this list. -/
theorem dependenciesOf_closing_brackets (content : String) :
    dependenciesByPattern content = dependenciesOf content ∧
      ((∀ p q, ¬ ClosesList content.toList p q) ∧ dependenciesOf content = [] ∨
        ∃ p q, ClosesList content.toList p q ∧
          (∀ p' q', ClosesList content.toList p' q' → q' ≤ q) ∧
          ∀ names, Nonempty (ListReading ((content.toList.take q).drop (p + 1)) names) ↔
            dependenciesOf content = names.map String.ofList) := by
  refine ⟨dependenciesByPattern_eq content, ?_⟩
  simp only [dependenciesOf, injectedNames, lastInjectionList?]
  obtain ⟨nowhere, found⟩ | ⟨p, q, closes, last, found⟩ := lastListFrom_spec content.toList none
  · left
    refine ⟨nowhere, ?_⟩
    rw [found]
    rfl
  · right
    refine ⟨p, q, closes, last, fun names => ?_⟩
    -- Names are the same as characters and as strings.
    rw [found, nonempty_listReading_iff]
    exact (List.map_injective_iff.mpr fun _ _ => String.ofList_injective).eq_iff.symm

/-- A text with two lists, of which the last one holds quoted names, a repeated one, the word for a
constructor, a name that begins with this word, and a constructor with one more name behind it. -/
def mixedLists : String :=
  "['late']\n['$scope', \" b \", functional, `$scope`, function, function (a) \x7b\x7d, c] \n"

/-- Of the last list, the names before the constructor are read, each once. -/
theorem dependenciesOf_closing_brackets_mixed :
    dependenciesOf mixedLists = ["$scope", "b", "functional"] ∧
      ∃ p q, ClosesList mixedLists.toList p q ∧
        Nonempty (ListReading ((mixedLists.toList.take q).drop (p + 1))
          ["$scope".toList, "b".toList, "functional".toList]) := by
  -- The names are computed, so the list that closes last is there and has them.
  have listed : dependenciesOf mixedLists = ["$scope", "b", "functional"] := by decide +kernel
  refine ⟨listed, ?_⟩
  obtain ⟨-, ⟨-, nothing⟩ | ⟨p, q, closes, -, reads⟩⟩ := dependenciesOf_closing_brackets mixedLists
  · rw [listed] at nothing
    cases nothing
  · exact ⟨p, q, closes, (reads _).mpr listed⟩

end Stocktake
