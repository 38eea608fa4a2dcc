import Mathlib.Data.List.Chain
import Stocktake.Proofs.Text.Separator
import Stocktake.Report.ConsoleText

/-! Rows without line feeds are told by the text in which each of them is ended by one, and a block
of rows ends where a header comes with which none of them begins. -/

namespace Stocktake

/-- The text of rows, each of which is ended by a line feed. -/
def endedRows (rows : List (List Char)) : List Char :=
  rows.flatMap (· ++ ['\n'])

variable {rows rows' : List (List Char)}

/-- The first row is ended before the others. -/
theorem endedRows_cons (row : List Char) (rows : List (List Char)) :
    endedRows (row :: rows) = row ++ '\n' :: endedRows rows := by
  -- Rows are joined from the first to the last.
  rw [endedRows, List.flatMap_cons, List.append_assoc]
  rfl

/-- Rows are ended in turn. -/
theorem endedRows_append (rows rows' : List (List Char)) :
    endedRows (rows ++ rows') = endedRows rows ++ endedRows rows' :=
  -- Rows are ended one by one.
  List.flatMap_append

/-- Ended rows are parts of a text, and the others are those of what stands behind them. -/
theorem splitOn_endedRows_append (free : ∀ row ∈ rows, '\n' ∉ row) (text : List Char) :
    (endedRows rows ++ text).splitOn '\n' = rows ++ text.splitOn '\n' := by
  -- Each row is the part before the next line feed, since it has none itself.
  induction rows with
  | nil => rfl
  | cons row rows ih =>
    rw [endedRows_cons, List.append_assoc, List.cons_append,
      List.splitOn_append_cons_self_of_not_mem (free row List.mem_cons_self),
      ih fun later member => free later (List.mem_cons_of_mem row member)]
    rfl

/-- Rows are told by their text. -/
theorem endedRows_inj (free : ∀ row ∈ rows, '\n' ∉ row) (free' : ∀ row ∈ rows', '\n' ∉ row)
    (same : endedRows rows = endedRows rows') : rows = rows' := by
  -- Behind the last line feed there is one more part, which is empty.
  have parts := congrArg (fun text => (text ++ []).splitOn '\n') same
  simp only [splitOn_endedRows_append free, splitOn_endedRows_append free'] at parts
  exact List.append_cancel_right parts

/-- The lines of a text make up that text with one more line feed. -/
theorem endedRows_splitOn (text : List Char) : endedRows (text.splitOn '\n') = text ++ ['\n'] := by
  -- The last part is ended, too, where the text has no line feed.
  induction text using separated_induction '\n' with
  | whole text free =>
    rw [List.splitOn_eq_singleton free]
    exact endedRows_cons text []
  | parts part rest free ih =>
    rw [List.splitOn_append_cons_self_of_not_mem free, endedRows_cons, ih, List.append_assoc,
      List.cons_append]

/-- No line of a text begins with a character, but possibly the first one. -/
def OpensNoLine (c : Char) (text : List Char) : Prop :=
  text.IsChain fun one next => one = '\n' → next ≠ c

namespace OpensNoLine

variable {c : Char} {text : List Char}

/-- Within a line there is nothing to look at. -/
theorem append {run : List Char} (free : '\n' ∉ run) (opens : OpensNoLine c text) :
    OpensNoLine c (run ++ text) := by
  -- No character of the run is a line feed, so none of them opens a line.
  induction run with
  | nil => exact opens
  | cons d run ih =>
    have later := ih (List.not_mem_of_not_mem_cons free)
    refine List.isChain_cons.mpr ⟨fun next _ same => ?_, later⟩
    exact absurd same.symm (List.ne_of_not_mem_cons free)

/-- Rows that begin with other characters open no line with the character. -/
theorem of_rows (other : c ≠ '\n') (free : ∀ row ∈ rows, '\n' ∉ row)
    (heads : ∀ row ∈ rows, row.head? ≠ some c) :
    OpensNoLine c ('\n' :: (endedRows rows ++ ['\n'])) := by
  -- The line feed in front is the one that ends the row before.
  induction rows with
  | nil => exact .cons_cons (fun _ => Ne.symm other) (.singleton _)
  | cons row rows ih =>
    have rest := ih (fun later member => free later (List.mem_cons_of_mem row member))
      fun later member => heads later (List.mem_cons_of_mem row member)
    rw [endedRows_cons, List.append_assoc, List.cons_append]
    refine List.isChain_cons.mpr ⟨?_, rest.append (free row List.mem_cons_self)⟩
    rintro next first - rfl
    cases row with
    | nil => exact other (Option.some.inj first).symm
    | cons d row => exact heads (d :: row) List.mem_cons_self first

end OpensNoLine

/-- A block ends before the first header when the header begins with an empty line, and behind this
with a character with which no line of the block begins. -/
theorem beforeWord?_append {c : Char} {more block rest : List Char} (other : c ≠ '\n')
    (opens : OpensNoLine c (block ++ ['\n'])) :
    beforeWord? ('\n' :: c :: more) (block ++ ('\n' :: c :: more ++ rest)) = some block := by
  induction block with
  | nil =>
    have whole : ('\n' :: c :: more).isPrefixOf ('\n' :: c :: more ++ rest) = true :=
      List.isPrefixOf_iff_prefix.mpr (List.prefix_append _ rest)
    exact if_pos whole
  | cons d block ih =>
    obtain ⟨next, later⟩ := List.isChain_cons.mp opens
    -- The header does not begin at a character of the block.
    have apart : ¬ ('\n' :: c :: more).isPrefixOf
        (d :: (block ++ ('\n' :: c :: more ++ rest))) = true := by
      rw [List.isPrefixOf_iff_prefix, List.cons_prefix_cons]
      rintro ⟨rfl, header⟩
      cases block with
      | nil => exact other (List.cons_prefix_cons.mp header).1
      | cons e block => exact next e rfl rfl (List.cons_prefix_cons.mp header).1.symm
    rw [List.cons_append, beforeWord?, if_neg apart, ih later]
    rfl

end Stocktake
