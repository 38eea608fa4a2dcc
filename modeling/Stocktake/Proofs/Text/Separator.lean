/-! Texts are taken apart at a character that separates their parts. -/

namespace Stocktake

/-- A statement about texts holds when it holds of texts without a separator and can be carried over
the first separator from the text behind it. -/
theorem separated_induction (separator : Char) {motive : List Char → Prop}
    (whole : ∀ text, separator ∉ text → motive text)
    (parts : ∀ part rest, separator ∉ part → motive rest → motive (part ++ separator :: rest))
    (text : List Char) : motive text := by
  -- The part that is under way when the text begins is kept aside.
  suffices general : ∀ part, separator ∉ part → motive (part ++ text) from
    general [] List.not_mem_nil
  induction text with
  | nil =>
    intro part free
    rw [List.append_nil]
    exact whole part free
  | cons c text ih =>
    intro part free
    by_cases same : c = separator
    · subst same
      exact parts part text free (ih [] List.not_mem_nil)
    · have longer := ih (part ++ [c]) (by simp [free, Ne.symm same])
      simpa using longer

/-- In a part of a text there is no separator. -/
theorem not_mem_of_mem_splitOn {separator : Char} {text part : List Char}
    (member : part ∈ text.splitOn separator) : separator ∉ part := by
  induction text using separated_induction separator with
  | whole text free =>
    -- The text itself is its only part.
    rw [List.splitOn_eq_singleton free, List.mem_singleton] at member
    rw [member]
    exact free
  | parts first rest free ih =>
    rw [List.splitOn_append_cons_self_of_not_mem free] at member
    rcases List.mem_cons.mp member with rfl | later
    · exact free
    · exact ih later

/-- The parts of a text are made of its characters. -/
theorem subset_of_mem_splitOn {separator : Char} {text part : List Char}
    (member : part ∈ text.splitOn separator) : part ⊆ text := by
  -- A part is the first one, or one of the rest.
  induction text using separated_induction separator with
  | whole text free =>
    rw [List.splitOn_eq_singleton free, List.mem_singleton] at member
    rw [member]
    exact List.Subset.refl text
  | parts first rest free ih =>
    rw [List.splitOn_append_cons_self_of_not_mem free] at member
    rcases List.mem_cons.mp member with rfl | later
    · exact List.subset_append_left part (separator :: rest)
    · have inside : rest ⊆ first ++ separator :: rest :=
        List.subset_append_of_subset_right first (List.subset_cons_self separator rest)
      exact List.Subset.trans (ih later) inside

/-- The last part of a text is what stands behind its last separator, or all of it without one. -/
theorem exists_last_part (separator : Char) (text : List Char) :
    ∃ last, (text.splitOn separator).getLast? = some last ∧ separator ∉ last ∧
      (text = last ∨ ∃ front, text = front ++ separator :: last) := by
  induction text using separated_induction separator with
  | whole text free =>
    rw [List.splitOn_eq_singleton free]
    exact ⟨text, rfl, free, .inl rfl⟩
  | parts part rest free ih =>
    -- The last part of the rest is that of the text, and some separator stands before it.
    obtain ⟨last, ends, plain, shape⟩ := ih
    refine ⟨last, ?_, plain, .inr ?_⟩
    · rw [List.splitOn_append_cons_self_of_not_mem free, List.getLast?_cons, ends]
      rfl
    · obtain rfl | ⟨front, rfl⟩ := shape
      · exact ⟨part, rfl⟩
      · exact ⟨part ++ separator :: front, by rw [List.append_assoc, List.cons_append]⟩

/-- Behind the characters of a class a text goes on with a character of another class. -/
theorem eq_false_of_dropWhile_eq_cons {drops : Char → Bool} {text rest : List Char} {c : Char}
    (left : text.dropWhile drops = c :: rest) : drops c = false := by
  -- Otherwise that character would have been dropped as well.
  have stops := List.head_dropWhile_not drops (l := text) (by simp [left])
  simpa [left] using stops

/-- What stands before the first character of a class is determined by the text. -/
theorem append_cons_inj_of_first {ends : Char → Bool} {part part' rest rest' : List Char}
    {c c' : Char} (free : part.all (!ends ·) = true) (free' : part'.all (!ends ·) = true)
    (last : ends c = true) (last' : ends c' = true)
    (same : part ++ c :: rest = part' ++ c' :: rest') : part = part' ∧ c = c' ∧ rest = rest' := by
  -- One part cannot go on where the other ends.
  induction part generalizing part' with
  | nil =>
    cases part' with
    | nil => exact ⟨rfl, List.cons.inj same⟩
    | cons d part' =>
      have first := List.head_eq_of_cons_eq same
      rw [List.all_cons, ← first, last] at free'
      cases free'
  | cons d part ih =>
    cases part' with
    | nil =>
      have first := List.head_eq_of_cons_eq same
      rw [List.all_cons, first, last'] at free
      cases free
    | cons d' part' =>
      rw [List.all_cons, Bool.and_eq_true] at free free'
      obtain ⟨first, others⟩ := List.cons.inj same
      obtain ⟨parts, ends_, rests⟩ := ih free.2 free'.2 others
      exact ⟨by rw [first, parts], ends_, rests⟩

/-- What stands before the first separator is determined by the text. -/
theorem append_separator_inj {separator : Char} {part part' rest rest' : List Char}
    (free : separator ∉ part) (free' : separator ∉ part')
    (same : part ++ separator :: rest = part' ++ separator :: rest') :
    part = part' ∧ rest = rest' := by
  -- Each part is what stands before the first character that is a separator.
  have plain : ∀ {part : List Char}, separator ∉ part →
      part.all (fun c => !(c == separator)) = true := by
    intro part free
    apply List.all_eq_true.mpr
    intro c member
    simpa using ne_of_mem_of_not_mem member free
  obtain ⟨parts, _, rests⟩ := append_cons_inj_of_first (plain free) (plain free')
    (beq_self_eq_true separator) (beq_self_eq_true separator) same
  exact ⟨parts, rests⟩

/-- What stands behind the last separator is determined by the text. -/
theorem append_separator_inj_of_last {separator : Char} {part part' rest rest' : List Char}
    (free : separator ∉ rest) (free' : separator ∉ rest')
    (same : part ++ separator :: rest = part' ++ separator :: rest') :
    part = part' ∧ rest = rest' := by
  -- From its end the text has the last separator first.
  have reversed : rest.reverse ++ separator :: part.reverse =
      rest'.reverse ++ separator :: part'.reverse := by
    simpa using congrArg List.reverse same
  obtain ⟨rests, parts⟩ := append_separator_inj (by simpa using free) (by simpa using free') reversed
  exact ⟨List.reverse_inj.mp parts, List.reverse_inj.mp rests⟩

/-- A text that is put together with separators has the parts of its pieces. -/
theorem splitOn_intercalate_pieces {separator : Char} {pieces : List (List Char)}
    (some_piece : pieces ≠ []) :
    ([separator].intercalate pieces).splitOn separator =
      pieces.flatMap (·.splitOn separator) := by
  -- A separator between two pieces parts the text there, whatever the pieces have in them.
  induction pieces with
  | nil => exact absurd rfl some_piece
  | cons piece pieces ih =>
    cases pieces with
    | nil => simp
    | cons next pieces =>
      rw [List.intercalate_cons_cons, List.append_assoc, List.singleton_append,
        List.splitOn_append_cons_self, ih (List.cons_ne_nil next pieces)]
      exact List.flatMap_cons.symm

/-- A character of a text that is put together with separators comes from a separator or from one of
the pieces. -/
theorem not_mem_intercalate {separator : List Char} {c : Char} {pieces : List (List Char)}
    (other : c ∉ separator) (free : ∀ piece ∈ pieces, c ∉ piece) :
    c ∉ separator.intercalate pieces := by
  -- The character is in none of the pieces and in no separator.
  induction pieces with
  | nil => exact List.not_mem_nil
  | cons piece pieces ih =>
    have first := free piece List.mem_cons_self
    cases pieces with
    | nil => simpa using first
    | cons next pieces =>
      have later := ih fun piece' member => free piece' (List.mem_cons_of_mem piece member)
      rw [List.intercalate_cons_cons]
      simp [first, other, later]

/-- Pieces without separators are not taken apart. -/
theorem flatMap_splitOn_eq_self {separator : Char} {pieces : List (List Char)}
    (free : ∀ piece ∈ pieces, separator ∉ piece) :
    pieces.flatMap (·.splitOn separator) = pieces := by
  -- Each piece is the only part of itself.
  induction pieces with
  | nil => rfl
  | cons piece pieces ih =>
    rw [List.flatMap_cons, List.splitOn_eq_singleton (free piece List.mem_cons_self),
      ih fun piece' member => free piece' (List.mem_cons_of_mem piece member)]
    rfl

/-- Padding without separators does not count when the parts of a text are only looked at in a way
that does not see padding at their ends. -/
theorem map_splitOn_padded {α : Type} {separator : Char} {look : List Char → α}
    {before behind : List Char} (free : separator ∉ before) (free' : separator ∉ behind)
    (front : ∀ part, look (before ++ part) = look part)
    (back : ∀ part, look (part ++ behind) = look part) (text : List Char) :
    ((before ++ (text ++ behind)).splitOn separator).map look =
      (text.splitOn separator).map look := by
  -- The padding behind the text belongs to its last part.
  have last : ((text ++ behind).splitOn separator).map look =
      (text.splitOn separator).map look := by
    induction text using separated_induction separator with
    | whole text plain =>
      rw [List.splitOn_eq_singleton plain, List.splitOn_eq_singleton (by simp [plain, free'])]
      simp [back]
    | parts part rest plain ih =>
      rw [List.append_assoc, List.cons_append, List.splitOn_append_cons_self_of_not_mem plain,
        List.splitOn_append_cons_self_of_not_mem plain, List.map_cons, List.map_cons, ih]
  rw [← last]
  generalize text ++ behind = padded
  -- The padding before it belongs to its first part.
  induction padded using separated_induction separator with
  | whole text plain =>
    rw [List.splitOn_eq_singleton plain, List.splitOn_eq_singleton (by simp [plain, free])]
    simp [front]
  | parts part rest plain _ =>
    have plain' : separator ∉ before ++ part := by simp [plain, free]
    rw [← List.append_assoc, List.splitOn_append_cons_self_of_not_mem plain',
      List.splitOn_append_cons_self_of_not_mem plain, List.map_cons, List.map_cons, front]

end Stocktake
