import Stocktake.Proofs.Report.ConsoleRows

/-! The paint of a console report lies on its titles, the lines under these, and the line of the
files that failed. Without it the rows are those of a report without colors. -/

namespace Stocktake

/-- Behind characters that are no escapes the sequences are removed from the rest. -/
theorem withoutEscapes_append {run : List Char} (free : '\x1b' ∉ run) (text : List Char) :
    withoutEscapes false (run ++ text) = run ++ withoutEscapes false text := by
  -- Outside a sequence every character but an escape is kept.
  induction run with
  | nil => rfl
  | cons c run ih =>
    have other : (c == '\x1b') = false :=
      beq_eq_false_iff_ne.mpr (List.ne_of_not_mem_cons free).symm
    simp [withoutEscapes, other, ih (List.not_mem_of_not_mem_cons free)]

/-- A sequence is removed up to its letter m. -/
theorem withoutEscapes_sequence {code : List Char} (free : 'm' ∉ code) (text : List Char) :
    withoutEscapes true (code ++ 'm' :: text) = withoutEscapes false text := by
  -- Inside a sequence every character but the letter m is dropped.
  induction code with
  | nil => rfl
  | cons c code ih =>
    have other : (c != 'm') = true := bne_iff_ne.mpr (List.ne_of_not_mem_cons free).symm
    simp [withoutEscapes, other, ih (List.not_mem_of_not_mem_cons free)]

/-- A line without escapes is not painted. -/
theorem isPainted_eq_false {line : List Char} (free : '\x1b' ∉ line) : isPainted line = false := by
  -- A painted line has an escape behind its blanks.
  rw [isPainted, beq_eq_false_iff_ne]
  intro first
  exact free ((List.dropWhile_sublist _).subset (List.mem_of_mem_head? first))

/-- A line without the escape sequences that its paint is made of. -/
def unpaintedLine (line : List Char) : List Char :=
  if isPainted line then withoutEscapes false line else line

/-- As many painted lines lose their paint as the front of the lines has, so no other one does. -/
theorem unpaintLines_append (lines rest : List (List Char)) :
    unpaintLines (lines.filter isPainted).length (lines ++ rest) =
      lines.map unpaintedLine ++ rest := by
  -- Each painted line of the front uses up one of the count, and the others use up none.
  have passes : ∀ {line : List Char} (count : Nat) (later : List (List Char)),
      isPainted line = false →
        unpaintLines count (line :: later) = line :: unpaintLines count later := by
    intro line count later bare
    cases count <;> simp [unpaintLines, bare]
  induction lines with
  | nil => simp [unpaintLines]
  | cons line lines ih =>
    cases paint : isPainted line with
    | true => simp [unpaintLines, unpaintedLine, paint, ih]
    | false => simp [passes, unpaintedLine, paint, ih]

/-- Rows in colors, the same rows without them, and those that have the paint. -/
structure Paints (coloured bare accents : List (List Char)) : Prop where
  filtered : coloured.filter isPainted = accents
  mapped : coloured.map unpaintedLine = bare

namespace Paints

/-- Rows may come behind others. -/
theorem append {coloured bare accents coloured' bare' accents' : List (List Char)}
    (first : Paints coloured bare accents) (second : Paints coloured' bare' accents') :
    Paints (coloured ++ coloured') (bare ++ bare') (accents ++ accents') where
  -- Both conditions are about the rows one by one.
  filtered := by rw [List.filter_append, first.filtered, second.filtered]
  mapped := by rw [List.map_append, first.mapped, second.mapped]

/-- Rows without escapes are the same in colors. -/
theorem of_free {rows : List (List Char)} (free : ∀ row ∈ rows, '\x1b' ∉ row) :
    Paints rows rows [] where
  -- Rows without escapes are not among the painted ones, and lose nothing.
  filtered := by
    rw [List.filter_eq_nil_iff]
    intro row member
    simp [isPainted_eq_false (free row member)]
  mapped := by
    have same : ∀ row ∈ rows, unpaintedLine row = row := fun row member => by
      simp [unpaintedLine, isPainted_eq_false (free row member)]
    rw [List.map_congr_left same, List.map_id']

/-- A painted line is one of those that lose something. -/
theorem of_painted {line bare : List Char} (painted : isPainted line = true)
    (removed : withoutEscapes false line = bare) : Paints [line] [bare] [line] where
  -- The single line is painted, so it is both kept by the filter and changed by the map.
  filtered := by rw [List.filter_cons_of_pos painted, List.filter_nil]
  mapped := by rw [List.map_singleton, unpaintedLine, if_pos painted, removed]

end Paints

namespace Style

variable (format : Format)

/-- A text behind blanks is painted in colors, and what it loses then are its two sequences. -/
theorem paints_paint {blanks : List Char} (blank : ∀ c ∈ blanks, c = ' ') (code text : String)
    (marks : 'm' ∉ code.toList) (free : '\x1b' ∉ text.toList) :
    Paints [blanks ++ (paint ⟨format, true⟩ code text).toList]
      [blanks ++ (paint ⟨format, false⟩ code text).toList]
      [blanks ++ (paint ⟨format, true⟩ code text).toList] := by
  -- Behind the blanks the text stands between two sequences, and has no escape of its own.
  have coloured : (paint ⟨format, true⟩ code text).toList =
      '\x1b' :: ('[' :: code.toList ++ 'm' :: (text.toList ++ "\x1b[0m".toList)) :=
    toList_paint ⟨format, true⟩ code text
  have bare : (paint ⟨format, false⟩ code text).toList = text.toList :=
    toList_paint ⟨format, false⟩ code text
  rw [coloured, bare]
  refine .of_painted ?_ ?_
  · have drops : ∀ c ∈ blanks, (c == ' ') = true := fun c member => beq_iff_eq.mpr (blank c member)
    rw [isPainted, List.dropWhile_append_of_pos drops]
    rfl
  · have free' : '\x1b' ∉ blanks := fun member => absurd (blank _ member) (by decide)
    have marks' : 'm' ∉ '[' :: code.toList := by simp [marks]
    have reset : withoutEscapes false "\x1b[0m".toList = [] := by decide
    have sequence := withoutEscapes_sequence marks' (text.toList ++ "\x1b[0m".toList)
    rw [withoutEscapes_append free']
    calc blanks ++ withoutEscapes true
          ('[' :: code.toList ++ 'm' :: (text.toList ++ "\x1b[0m".toList))
      _ = blanks ++ withoutEscapes false (text.toList ++ "\x1b[0m".toList) := by rw [sequence]
      _ = blanks ++ text.toList := by
          rw [withoutEscapes_append free, reset, List.append_nil]

/-- A title and the line under it are painted. -/
theorem paints_headerRows (title : String) (free : '\x1b' ∉ title.toList) :
    Paints (headerRows ⟨format, true⟩ title) (headerRows ⟨format, false⟩ title)
      ((titleLines ⟨format, true⟩ title).map String.toList) := by
  -- The empty row before both lines has no paint.
  have blank : ∀ c ∈ ([] : List Char), c = ' ' := fun _ member => nomatch member
  have first := paints_paint format blank "1;36" title (by decide) free
  have second := paints_paint format blank "2"
    (String.ofList (List.replicate title.length '=')) (by decide) (by simp)
  rw [List.nil_append, List.nil_append] at first second
  have empty : Paints [[]] [[]] [] := .of_free (by simp)
  rw [headerRows, headerRows, titleLines, titleLines]
  exact empty.append (first.append second)

/-- The rows of a summary are painted in the line of the files that failed. -/
theorem paints_summaryRows (summary : Summary) :
    Paints (summaryRows ⟨format, true⟩ summary) (summaryRows ⟨format, false⟩ summary)
      ((failureLines ⟨format, true⟩ summary).map String.toList) := by
  cases format with
  | json =>
    refine .of_free fun row member escape => ?_
    -- In the JSON line feeds are the only control characters.
    have inside : '\x1b' ∈ summary.toJson.render.toList ++ ['\n'] := by
      rw [← endedRows_splitOn]
      exact List.mem_flatMap.mpr ⟨row, member, List.mem_append_left _ escape⟩
    rcases List.mem_append.mp inside with within | last
    · exact absurd ((Json.laidOut_render summary.plain_toJson).printed_of_mem within) (by decide)
    · exact absurd last (by decide)
  | terminal =>
    have number : ∀ n, '\x1b' ∉ Nat.toDigits 10 n := not_mem_toDigits (by decide)
    have counts : Paints (countRows summary) (countRows summary) [] :=
      .of_free (by simp [countRows, templatesRow, counted, number])
    refine counts.append ?_
    rw [failureLines, failureLines]
    split
    · exact .of_free (by simp)
    · have blank : ∀ c ∈ "             ".toList, c = ' ' := by simp
      have failed := paints_paint .terminal blank "31"
        (summary.filesFailed.repr ++ " could not be read") (by decide) (by simp [number])
      simpa using failed

/-- The rows before the names are painted in the accents of a report. -/
theorem paints_leadingRows (summary : Summary) :
    Paints (leadingRows ⟨format, true⟩ summary) (leadingRows ⟨format, false⟩ summary)
      ((accents ⟨format, true⟩ summary).map String.toList) := by
  -- Titles are painted, and so may be one line of the summary, while all other rows are plain.
  have number : ∀ n, '\x1b' ∉ Nat.toDigits 10 n := not_mem_toDigits (by decide)
  have levels : Paints (levelRows summary.complexity) (levelRows summary.complexity) [] :=
    .of_free (by simp [levelRows, counted, number])
  have titles := fun title free => paints_headerRows format title free
  have rows := (titles "Component Analysis Summary:" (by decide)).append
    ((paints_summaryRows format summary).append
      ((titles "Migration Complexity Analysis:" (by decide)).append
        (levels.append (titles "Suggested Migration Order:" (by decide)))))
  simp only [accents, leadingRows, levelsRows, List.map_append, List.append_assoc]
  exact rows

/-- The accents come first among the painted lines of a text in colors, and the text that has lost
as many is the one without colors, whatever lines the names begin. -/
theorem unpainted_text (summary : Summary) (order : List String) :
    accents ⟨format, true⟩ summary <+: paintedLines (text ⟨format, true⟩ summary order) ∧
      unpainted (accents ⟨format, true⟩ summary).length (text ⟨format, true⟩ summary order) =
        text ⟨format, false⟩ summary order := by
  -- The rows of a text are its lines, and those before the names are painted as their accents say.
  have paints := paints_leadingRows format summary
  have parts : (text ⟨format, true⟩ summary order).toList.splitOn '\n' =
      leadingRows ⟨format, true⟩ summary ++ (endedRows (numberedRows 1 order)).splitOn '\n' := by
    rw [toList_text, splitOn_endedRows_append (lineFeed_not_mem_leadingRows _ summary)]
  have bareParts : (text ⟨format, false⟩ summary order).toList.splitOn '\n' =
      leadingRows ⟨format, false⟩ summary ++ (endedRows (numberedRows 1 order)).splitOn '\n' := by
    rw [toList_text, splitOn_endedRows_append (lineFeed_not_mem_leadingRows _ summary)]
  constructor
  · have accented : (((accents ⟨format, true⟩ summary).map String.toList).map String.ofList) =
        accents ⟨format, true⟩ summary := by simp
    rw [paintedLines, parts, List.filter_append, List.map_append, paints.filtered, accented]
    exact List.prefix_append _ _
  -- As many lines lose their paint as there are accents, and these come first.
  · have count : (accents ⟨format, true⟩ summary).length =
        ((leadingRows ⟨format, true⟩ summary).filter isPainted).length := by
      rw [paints.filtered, List.length_map]
    rw [unpainted, parts, count, unpaintLines_append, paints.mapped, ← bareParts,
      List.intercalate_splitOn, String.ofList_toList]

end Style

end Stocktake
