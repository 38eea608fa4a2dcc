import Mathlib.Data.List.DropRight
import Stocktake.Proofs.Source.ClosingBracket
import Stocktake.Proofs.Source.EntryName
import Stocktake.Source.WrittenList

/-! An injection list that is written down gives its names back, however it is written and whatever
stands around it. -/

namespace Stocktake

/-- A quote is no white space. -/
theorem isBlank_of_isEntryQuote {c : Char} (quote : isEntryQuote c = true) : isBlank c = false := by
  -- There are three quotes.
  simp only [isEntryQuote, Bool.or_eq_true, beq_iff_eq] at quote
  obtain (rfl | rfl) | rfl := quote <;> decide

/-- A character is solid when it is no white space and no quote. -/
theorem isSolid_iff {c : Char} :
    isSolid c = true ↔ isBlank c = false ∧ isEntryQuote c = false := by
  -- Both tests are negated.
  rw [isSolid, Bool.and_eq_true, Bool.not_eq_true', Bool.not_eq_true']

namespace ListName

variable (name : ListName)

/-- A name begins with a solid character. -/
theorem solid_head : ∀ c ∈ name.text.head?, isBlank c = false ∧ isEntryQuote c = false := by
  -- A name carries this as a condition.
  intro c first
  exact isSolid_iff.mp ((Option.all_eq_true _ _).mp name.solidFront c first)

/-- A name ends with a solid character. -/
theorem solid_getLast : ∀ c ∈ name.text.getLast?, isBlank c = false ∧ isEntryQuote c = false := by
  -- A name carries this as a condition, too.
  intro c last
  exact isSolid_iff.mp ((Option.all_eq_true _ _).mp name.solidBack c last)

/-- What is left out at the ends of an entry leaves a name as it is. -/
theorem stripEnds_text {drops : Char → Bool}
    (solid : ∀ c, isBlank c = false ∧ isEntryQuote c = false → drops c = false) :
    stripEnds drops name.text = name.text := by
  -- Both ends of a name are solid, so nothing is stripped from either.
  apply stripEnds_eq_self
  · intro c first
    exact solid c (name.solid_head c first)
  · intro c last
    exact solid c (name.solid_getLast c last)

end ListName

/-- An entry between two equal quotes stands for what is left of it without the quotes, and without
those and the white space that are found at its ends then. -/
theorem entryName_between {q : Char} (quote : isEntryQuote q = true) (inner : List Char) :
    entryName ([q] ++ (inner ++ [q])) = trim (stripEnds isEntryQuote inner) := by
  -- The quotes keep the white space inside until they go themselves.
  have quoted : trim ([q] ++ (inner ++ [q])) = [q] ++ (inner ++ [q]) := by
    apply stripEnds_eq_self
    · intro c first
      obtain rfl : q = c := by simpa using first
      exact isBlank_of_isEntryQuote quote
    · intro c last
      rw [← List.append_assoc, List.getLast?_concat] at last
      obtain rfl := Option.some.inj last
      exact isBlank_of_isEntryQuote quote
  have dropped : ∀ c ∈ [q], isEntryQuote c = true := by simp [quote]
  rw [entryName, quoted, stripEnds_append_left dropped, stripEnds_append_right dropped]

namespace WrittenName

variable (written : WrittenName)

/-- Trimming leaves a name as it is. -/
theorem trim_name : trim written.name.text = written.name.text :=
  -- White space is not solid.
  written.name.stripEnds_text fun _ solid => solid.1

/-- There are no quotes at the ends of a name. -/
theorem stripEnds_name : stripEnds isEntryQuote written.name.text = written.name.text :=
  -- A quote is not solid.
  written.name.stripEnds_text fun _ solid => solid.2

/-- There are no quotes at the ends of a name with white space around it, either. -/
theorem stripEnds_inside :
    stripEnds isEntryQuote (written.inside.around written.name.text) =
      written.inside.around written.name.text := by
  -- At either end there is white space, or what the name itself has there.
  have unquoted : ∀ c, isBlank c = true → isEntryQuote c = false := by
    intro c blank
    apply Bool.eq_false_iff.mpr
    intro quote
    rw [isBlank_of_isEntryQuote quote] at blank
    cases blank
  apply stripEnds_eq_self
  · intro c first
    rcases written.inside.head?_around first with blank | own
    · exact unquoted c blank
    · exact (written.name.solid_head c own).2
  · intro c last
    rcases written.inside.getLast?_around last with blank | own
    · exact unquoted c blank
    · exact (written.name.solid_getLast c own).2

/-- The entry that is written for a name stands for it. -/
theorem entryName_render : entryName written.render = written.name.text := by
  rw [render, Padding.entryName_around]
  cases bare : written.quote? with
  | none =>
    -- All white space counts as white space around the entry.
    rw [quotes, bare]
    simp only [Option.toList_none, List.map_nil, List.nil_append, List.append_nil]
    rw [Padding.entryName_around, entryName, trim_name, stripEnds_name, trim_name]
  | some quote =>
    obtain ⟨q, isQuote⟩ := quote
    rw [quotes, bare]
    simp only [Option.toList_some, List.map_cons, List.map_nil]
    -- With the quotes goes the white space inside them.
    rw [entryName_between isQuote, stripEnds_inside, Padding.trim_around, trim_name]

/-- What is written for a name is one entry. -/
theorem not_mem_render {c : Char} (solid : isBlank c = false) (unquoted : isEntryQuote c = false)
    (free : c ∉ written.name.text) : c ∉ written.render := by
  -- All that is written besides the name is white space and quotes.
  apply Padding.not_mem_around _ solid
  have outside : c ∉ written.quotes := by
    intro member
    obtain ⟨⟨q, isQuote⟩, -, rfl⟩ := List.mem_map.mp member
    rw [isQuote] at unquoted
    cases unquoted
  have inside := written.inside.not_mem_around solid free
  simp [outside, inside]

end WrittenName

/-- An entry is an inline constructor when it begins with the word for one, and a character behind
that goes on with no name. -/
theorem isInlineConstructor_append_cons {c : Char} (ends : continuesName c = false)
    (rest : List Char) : isInlineConstructor (constructorWord ++ c :: rest) = true := by
  -- The word is taken off the front, and the character behind it is looked at.
  rw [isInlineConstructor, List.isPrefixOf?_eq_some_iff_append_eq.mpr rfl]
  simp [ends]

/-- An inline constructor is not left out of a list. -/
theorem isKept_of_isInlineConstructor {text : List Char}
    (inline : isInlineConstructor text = true) :
    (!text.isEmpty && text != constructorWord) = true := by
  -- Neither the empty text nor the word alone goes on with a further character.
  simp only [Bool.and_eq_true, Bool.not_eq_true', List.isEmpty_eq_false_iff, bne_iff_ne]
  constructor
  · rintro rfl
    exact absurd inline (by decide)
  · rintro rfl
    exact absurd inline (by decide)

namespace WrittenConstructor

variable (written : WrittenConstructor)

/-- Before a constructor there is only white space. -/
theorem isBlank_before : ∀ c ∈ written.before, isBlank c = true :=
  -- The constructor carries this as a condition.
  List.all_eq_true.mp written.blank

/-- Behind the word for a constructor there is a space or a parenthesis. -/
theorem exists_named_append (rest : List Char) :
    ∃ c after, written.named ++ '(' :: rest = c :: after ∧ continuesName c = false := by
  -- With a name there is a space before it, and without one the parenthesis comes at once.
  rw [named]
  cases written.name? with
  | none => exact ⟨'(', rest, rfl, by decide⟩
  | some name => exact ⟨' ', name.val ++ '(' :: rest, rfl, by decide⟩

/-- The name of a constructor separates no entries, and closes no list. -/
theorem not_mem_named {c : Char} (special : c = ',' ∨ c = ']') : c ∉ written.named := by
  -- The name carries both conditions, and a space is neither character.
  rw [named]
  cases written.name? with
  | none => exact List.not_mem_nil
  | some name =>
    obtain ⟨free, free'⟩ := name.property
    rcases special with rfl | rfl
    · simp [free]
    · simp [free']

/-- An entry that begins as a constructor is written is one, whatever its end is. -/
theorem isInlineConstructor_entryName (rest : List Char) :
    isInlineConstructor
      (entryName (written.before ++ (constructorWord ++ (written.named ++ '(' :: rest)))) =
        true := by
  rw [entryName_append_left written.isBlank_before, ← List.append_assoc]
  -- The parenthesis stays, and with it all that is written before it.
  have front : ∀ c ∈ (constructorWord ++ written.named).head?,
      isBlank c = false ∧ isEntryQuote c = false := by
    intro c first
    obtain rfl : 'f' = c := Option.some.inj first
    decide
  obtain ⟨left, kept⟩ := entryName_append_cons front (by decide : _ ∧ isEntryQuote '(' = false) rest
  obtain ⟨c, after, shape, ends⟩ := written.exists_named_append left
  rw [kept, List.append_assoc, shape]
  exact isInlineConstructor_append_cons ends after

/-- The first of the entries that a constructor is taken apart into is a constructor. -/
theorem splitOn_render :
    ∃ first others, written.render.splitOn ',' = first :: others ∧
      isInlineConstructor (entryName first) = true := by
  -- Up to the parameters nothing separates entries.
  have free : ',' ∉ written.before := not_mem_of_blank (by decide) written.isBlank_before
  have free' : ',' ∉ written.named := written.not_mem_named (.inl rfl)
  have opening : ∀ lead, ',' ∉ lead →
      ',' ∉ written.before ++ (constructorWord ++ (written.named ++ '(' :: lead)) := by
    intro lead plain
    have word : ',' ∉ constructorWord := by decide
    simp [free, free', plain, word]
  by_cases separated : ',' ∈ written.rest
  · -- The first entry goes up to the first separator.
    obtain ⟨lead, others, shape, plain⟩ := List.eq_append_cons_of_mem separated
    refine ⟨_, others.splitOn ',', ?_, written.isInlineConstructor_entryName lead⟩
    rw [← List.splitOn_append_cons_self_of_not_mem (opening lead plain), render, shape]
    simp
  · -- Without a separator the constructor is one entry.
    exact ⟨_, [], List.splitOn_eq_singleton (opening _ separated),
      written.isInlineConstructor_entryName written.rest⟩

/-- What is written for a constructor closes no list. -/
theorem not_mem_render : ']' ∉ written.render := by
  -- None of the parts that are written has a closing bracket.
  have outside : ']' ∉ written.before := not_mem_of_blank (by decide) written.isBlank_before
  have inside : ']' ∉ written.named := written.not_mem_named (.inr rfl)
  have word : ']' ∉ constructorWord := by decide
  simp [render, outside, inside, written.unclosed, word]

end WrittenConstructor

namespace WrittenList

variable (list : WrittenList)

/-- What is written between the brackets is taken apart into the entries of the names, and the
parts of the constructor. -/
theorem splitOn_body :
    list.body.splitOn ',' = list.names.map WrittenName.render ++
      list.constructor?.toList.flatMap (·.render.splitOn ',') := by
  have pieces : list.names.map WrittenName.render ++
      list.constructor?.toList.map WrittenConstructor.render ≠ [] := by
    simp [list.filled]
  -- Only the constructor can have separators of its own.
  have whole : ∀ piece ∈ list.names.map WrittenName.render, ',' ∉ piece := by
    intro piece member
    obtain ⟨written, -, rfl⟩ := List.mem_map.mp member
    exact written.not_mem_render (by decide) (by decide) written.name.oneEntry
  rw [body, splitOn_intercalate_pieces pieces, List.flatMap_append, flatMap_splitOn_eq_self whole,
    List.flatMap_map]

/-- No name is left out, and no name ends the list. -/
theorem isName_of_mem_texts {text : List Char} (member : text ∈ list.texts) :
    (!text.isEmpty && text != constructorWord) = true ∧ (!isInlineConstructor text) = true := by
  -- A written name carries both conditions.
  obtain ⟨written, -, rfl⟩ := List.mem_map.mp member
  simp [written.name.filled, written.name.ordinary.1, written.name.ordinary.2]

/-- The names between the brackets are those that are written, each once. -/
theorem namesInList_body : namesInList list.body = list.texts.eraseDups := by
  -- The entries of the names stand for them, and none of them is left out or ends the list.
  have names : (list.names.map WrittenName.render).map entryName = list.texts := by
    rw [List.map_map, texts]
    apply List.map_congr_left
    intro written _
    exact written.entryName_render
  have kept : list.texts.filter (fun text => !text.isEmpty && text != constructorWord) =
      list.texts :=
    List.filter_eq_self.mpr fun text member => (list.isName_of_mem_texts member).1
  rw [namesInList, splitOn_body, List.map_append, names, List.filter_append, kept,
    List.takeWhile_append_of_pos fun text member => (list.isName_of_mem_texts member).2]
  -- Nothing comes from the constructor, which ends the list.
  cases list.constructor? with
  | none => simp
  | some written =>
    obtain ⟨first, others, shape, ends⟩ := written.splitOn_render
    simp only [Option.toList_some, List.flatMap_cons, List.flatMap_nil, List.append_nil, shape,
      List.map_cons]
    rw [List.filter_cons, if_pos (isKept_of_isInlineConstructor ends),
      List.takeWhile_cons_of_neg (by simp [ends]), List.append_nil]

/-- There is something between the brackets of a list. -/
theorem body_ne_nil : list.body ≠ [] := by
  intro nothing
  -- Otherwise there would not be any name.
  have names := list.namesInList_body
  rw [nothing] at names
  obtain ⟨written, others, shape⟩ := List.exists_cons_of_ne_nil list.filled
  rw [texts, shape, List.map_cons, List.eraseDups_cons] at names
  cases names

/-- Between its brackets a list has no closing bracket. -/
theorem not_mem_body : ']' ∉ list.body := by
  -- Entries are joined with commas, and each of them is written without a closing bracket.
  apply not_mem_intercalate (by decide)
  intro piece member
  rcases List.mem_append.mp member with name | slot
  · obtain ⟨written, -, rfl⟩ := List.mem_map.mp name
    exact written.not_mem_render (by decide) (by decide) written.name.unclosed
  · obtain ⟨written, -, rfl⟩ := List.mem_map.mp slot
    exact written.not_mem_render

end WrittenList

/-- What stands behind the last closing bracket of a text depends on nothing before a closing
bracket. -/
theorem rtakeWhile_behind (segment rest : List Char) :
    (segment ++ ']' :: rest).rtakeWhile (· != ']') = rest.rtakeWhile (· != ']') := by
  -- Characters are taken from the end, and the bracket stops that.
  induction rest using List.reverseRecOn with
  | nil => exact List.rtakeWhile_concat_neg _ _ _ (by decide)
  | append_singleton rest c ih =>
    rw [← List.cons_append, ← List.append_assoc, List.rtakeWhile_concat, List.rtakeWhile_concat, ih]

/-- A list is the last one of a text when no list is left open before it and none is closed behind
it. -/
theorem lastListFrom_written {before body after : List Char}
    (settled : '[' ∉ before.rtakeWhile (· != ']')) (filled : body ≠ []) (inside : ']' ∉ body)
    (closes : closesLine after = true) (outside : ']' ∉ after) : ∀ found,
      lastListFrom found none (before ++ '[' :: (body ++ ']' :: after)) = some body := by
  induction before using separated_induction ']' with
  | whole before free =>
    -- The first bracket that opens a list is that of the list itself.
    intro found
    have plain : '[' ∉ before := by
      rwa [List.rtakeWhile_eq_self_iff.mpr] at settled
      intro c member
      simpa using ne_of_mem_of_not_mem member free
    have free' : ']' ∉ before ++ '[' :: body := by simp [free, inside]
    have closed : closedList? (before ++ '[' :: body) after = some body :=
      closedList?_eq_some.mpr ⟨before, rfl, plain, filled, closes⟩
    have shape : before ++ '[' :: (body ++ ']' :: after) =
        (before ++ '[' :: body) ++ ']' :: after := by simp
    rw [shape, lastListFrom_append_cons free', closed, lastListFrom_of_not_mem outside]
    rfl
  | parts segment rest free ih =>
    -- A list that is closed before is replaced later on, whatever it holds.
    intro found
    rw [rtakeWhile_behind] at settled
    rw [List.append_assoc, List.cons_append, lastListFrom_append_cons free]
    exact ih settled _

/-- An injection list gives its names back, however it is written, whatever comes before it that
leaves no list open, and whatever comes behind it on further lines that closes none. -/
theorem dependenciesOf_written (list : WrittenList) {before after : List Char}
    (settled : '[' ∉ before.rtakeWhile (· != ']')) (endsLine : after.head?.all (· == '\n') = true)
    (unclosed : ']' ∉ after) :
    dependenciesOf (String.ofList (before ++ (list.render ++ after))) =
      list.texts.eraseDups.map String.ofList := by
  -- The list is the last one, and its entries are the names.
  have closes : closesLine after = true :=
    (closesLine_iff after).mpr ⟨[], after, rfl, by simp, endsLine⟩
  have found : lastInjectionList? (before ++ (list.render ++ after)) = some list.body := by
    have shape : list.render ++ after = '[' :: (list.body ++ ']' :: after) := by
      simp [WrittenList.render]
    rw [shape]
    exact lastListFrom_written settled list.body_ne_nil list.not_mem_body closes unclosed none
  rw [dependenciesOf, String.toList_ofList, injectedNames, found]
  exact congrArg _ list.namesInList_body

/-- A list of two names, one of them twice, in three styles and with a constructor. -/
def mixedList : WrittenList where
  names := [
    { name := { text := "$http".toList }
      quote? := some ⟨'\x22', rfl⟩
      outside := { before := [' '], behind := ['\n'] }
      inside := { behind := [' '] } },
    { name := { text := "functions".toList }
      outside := { before := ['\n'] } },
    { name := { text := "$http".toList }
      quote? := some ⟨'\x27', rfl⟩ }]
  constructor? := some
    { before := [' ']
      name? := some ⟨"Main".toList, by decide⟩
      rest := "a, '$b') \x7b [".toList }

/-- The names come back from a list in mixed styles behind an earlier list. -/
theorem dependenciesOf_written_mixed :
    String.ofList mixedList.render =
        "[ \"$http \"\n,\nfunctions,'$http', function Main(a, '$b') \x7b []" ∧
      '[' ∉ ("A.$inject = ['$q']\nB.$inject = ".toList).rtakeWhile (· != ']') ∧
      ("\nvar done;\n".toList).head?.all (· == '\n') = true ∧ ']' ∉ "\nvar done;\n".toList ∧
      dependenciesOf (String.ofList ("A.$inject = ['$q']\nB.$inject = ".toList ++
        (mixedList.render ++ "\nvar done;\n".toList))) = ["$http", "functions"] :=
  -- The conditions on the texts around the list are checked, and the theorem gives the names.
  ⟨by decide, by decide, by decide, by decide,
    (dependenciesOf_written mixedList (by decide) (by decide) (by decide)).trans (by decide)⟩

end Stocktake
