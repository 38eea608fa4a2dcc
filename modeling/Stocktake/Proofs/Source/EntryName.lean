import Stocktake.Proofs.Text.Blank
import Stocktake.Proofs.Text.Separator
import Stocktake.Source.Injection

/-! The name that a list entry stands for does not depend on the white space around the entry. -/

namespace Stocktake

variable {before behind name : List Char}

/-- White space before an entry does not count. -/
theorem entryName_append_left (blank : ∀ c ∈ before, isBlank c = true) (entry : List Char) :
    entryName (before ++ entry) = entryName entry := by
  -- The first step of reading an entry is to trim it.
  have same : trim (before ++ entry) = trim entry := stripEnds_append_left blank entry
  rw [entryName, entryName, same]

/-- White space behind an entry does not count. -/
theorem entryName_append_right (blank : ∀ c ∈ behind, isBlank c = true) (entry : List Char) :
    entryName (entry ++ behind) = entryName entry := by
  -- Trimming takes white space from both ends.
  have same : trim (entry ++ behind) = trim entry := stripEnds_append_right blank entry
  rw [entryName, entryName, same]

/-- A character that is neither white space nor a quote keeps all that stands before it in an entry,
when the entry begins with such a character, too. -/
theorem entryName_append_cons {front : List Char} {c : Char}
    (first : ∀ d ∈ front.head?, isBlank d = false ∧ isEntryQuote d = false)
    (solid : isBlank c = false ∧ isEntryQuote c = false) (rest : List Char) :
    ∃ left, entryName (front ++ c :: rest) = front ++ c :: left := by
  -- Each of the three steps stops at the first character, and at the later one from behind.
  have blankless : ∀ d ∈ front.head?, isBlank d = false := fun d member => (first d member).1
  have unquoted : ∀ d ∈ front.head?, isEntryQuote d = false := fun d member => (first d member).2
  obtain ⟨left, trimmed⟩ := stripEnds_append_cons blankless solid.1 rest
  obtain ⟨left', stripped⟩ := stripEnds_append_cons unquoted solid.2 left
  obtain ⟨left'', trimmed'⟩ := stripEnds_append_cons blankless solid.1 left'
  refine ⟨left'', ?_⟩
  simp only [entryName, trim]
  rw [trimmed, stripped, trimmed']

/-- White space around an entry does not count. -/
theorem Padding.entryName_around (padding : Padding) (entry : List Char) :
    entryName (padding.around entry) = entryName entry := by
  -- Trimming is the first step here, too.
  rw [entryName, entryName, padding.trim_around]

/-- White space around the entries of a list does not count. -/
theorem Padding.namesInList_around (padding : Padding) (body : List Char) :
    namesInList (padding.around body) = namesInList body := by
  -- White space has no comma, so it belongs to the first entry and to the last one.
  rw [namesInList, namesInList, around,
    map_splitOn_padded (not_mem_of_blank (by decide) padding.isBlank_before)
      (not_mem_of_blank (by decide) padding.isBlank_behind)
      (entryName_append_left padding.isBlank_before)
      (entryName_append_right padding.isBlank_behind)]

end Stocktake
