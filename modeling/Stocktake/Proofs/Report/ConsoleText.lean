import Stocktake.Proofs.Report.ConsolePaint

/-! A console report loses nothing: its text tells the summary and the order, its JSON block reads
back, and the plain report is the coloured one without its paint. -/

namespace Stocktake.Style

variable (style : Style)

/-- No line of a summary begins like a header. -/
theorem opensNoLine_summaryRows (summary : Summary) {c : Char} (starts : c = 'M' ∨ c = '\x1b') :
    OpensNoLine c (endedRows (style.summaryRows summary) ++ ['\n']) := by
  have free := style.lineFeed_not_mem_summaryRows summary
  have other : c ≠ '\n' := by rcases starts with rfl | rfl <;> decide
  rw [summaryRows] at free ⊢
  cases format : style.format with
  | json =>
    -- In the JSON each line begins with a blank or a bracket.
    have chain := (Json.laidOut_render summary.plain_toJson).isChain
    have opens : summary.toJson.render.toList.IsChain fun one next => one = '\n' → next ≠ c := by
      refine chain.imp fun one next follows feed => ?_
      have opener : Json.OpensLine next := follows feed
      rcases starts with rfl | rfl <;> rcases opener with rfl | rfl | rfl <;> decide
    have ends : ∀ one ∈ summary.toJson.render.toList.getLast?, ∀ next ∈ ['\n', '\n'].head?,
        one = '\n' → next ≠ c := by
      rintro _ _ next first -
      rw [← Option.some.inj first]
      exact other.symm
    rw [endedRows_splitOn, List.append_assoc]
    exact List.isChain_append.mpr ⟨opens, .cons_cons (fun _ => other.symm) (.singleton _), ends⟩
  | terminal =>
    rw [format] at free
    have counts : ∀ row ∈ countRows summary, row.head? ≠ some c := by
      rcases starts with rfl | rfl <;> simp [countRows, templatesRow, counted]
    have failures : ∀ row ∈ (style.failureLines summary).map String.toList,
        row.head? ≠ some c := by
      rw [failureLines]
      split <;> rcases starts with rfl | rfl <;> simp
    refine (OpensNoLine.of_rows other free fun row member => ?_).tail
    rcases List.mem_append.mp member with count | failure
    · exact counts row count
    · exact failures row failure

/-- A header begins with an empty line, and its title with a capital or with an escape. -/
theorem exists_toList_header :
    ∃ c more, (style.header "Migration Complexity Analysis:").toList = '\n' :: c :: more ∧
      (c = 'M' ∨ c = '\x1b') := by
  -- Behind the empty line the title comes as it is or inside its sequences.
  rw [toList_header, headerRows, titleLines, endedRows_cons, List.map_cons, endedRows_cons,
    toList_paint]
  split
  · exact ⟨'\x1b', _, rfl, .inr rfl⟩
  · exact ⟨'M', _, rfl, .inl rfl⟩

/-- The block between the first two headers is what was written of the summary, whatever the names
are that come behind it. -/
theorem block?_text (summary : Summary) (order : List String) :
    style.block? (style.text summary order) = some (String.join (style.summaryLines summary)) := by
  obtain ⟨c, more, header, starts⟩ := style.exists_toList_header
  have other : c ≠ '\n' := by rcases starts with rfl | rfl <;> decide
  have opens := style.opensNoLine_summaryRows summary starts
  -- The text is taken apart at the two headers.
  have shape : (style.text summary order).toList =
      (style.header "Component Analysis Summary:").toList ++
        (endedRows (style.summaryRows summary) ++
          ((style.header "Migration Complexity Analysis:").toList ++
            (endedRows (levelRows summary.complexity ++
              style.headerRows "Suggested Migration Order:") ++
              endedRows (numberedRows 1 order)))) := by
    simp only [toList_text, leadingRows, levelsRows, toList_header, endedRows_append,
      List.append_assoc]
  have behind := List.isPrefixOf?_eq_some_iff_append_eq.mpr shape.symm
  rw [header] at behind
  rw [block?, between?, behind, Option.bind_eq_bind, Option.bind_some, header,
    beforeWord?_append other opens, Option.bind_some, ← toList_summaryLines,
    String.ofList_toList]
  rfl

/-- In the JSON format the block reads back as the summary. -/
theorem parse?_block {summary : Summary} (json : style.format = .json) (fits : summary.Fits)
    (order : List String) :
    (style.block? (style.text summary order)).bind Summary.parse? = some summary := by
  -- The block is the text of the JSON with a line feed behind it.
  have lines : String.join (style.summaryLines summary) = summary.toJson.render ++ "\n" := by
    rw [summaryLines, json]
    simp
  rw [block?_text, lines, Option.bind_some, Summary.parse?,
    Json.parse?_render_line summary.plain_toJson, Option.bind_eq_bind, Option.bind_some,
    Summary.ofJson?_toJson fits]

/-- No row of a report has a line feed when the names have none. -/
theorem lineFeed_not_mem_rows (summary : Summary) {order : List String}
    (free : ∀ name ∈ order, '\n' ∉ name.toList) :
    ∀ row ∈ style.leadingRows summary ++ numberedRows 1 order, '\n' ∉ row := by
  -- A row is one of those before the names or one of the names.
  intro row member
  rcases List.mem_append.mp member with leading | numbered
  · exact style.lineFeed_not_mem_leadingRows summary row leading
  · exact lineFeed_not_mem_numberedRows free row numbered

/-- A report without line feeds in its names is told by its rows. -/
theorem rows_eq_of_text_eq {style' : Style} {summary summary' : Summary}
    {order order' : List String}
    (free : ∀ name ∈ order, '\n' ∉ name.toList) (free' : ∀ name ∈ order', '\n' ∉ name.toList)
    (same : style.text summary order = style'.text summary' order') :
    style.leadingRows summary ++ numberedRows 1 order =
      style'.leadingRows summary' ++ numberedRows 1 order' := by
  -- A text without further line feeds is split into the rows that it is made up of.
  have texts := congrArg String.toList same
  rw [toList_text, toList_text, ← endedRows_append, ← endedRows_append] at texts
  exact endedRows_inj (style.lineFeed_not_mem_rows summary free)
    (style'.lineFeed_not_mem_rows summary' free') texts

/-- The first title tells whether there is paint. -/
theorem color_eq_of_rows_eq {style' : Style} {summary summary' : Summary}
    {rest rest' : List (List Char)}
    (same : style.leadingRows summary ++ rest = style'.leadingRows summary' ++ rest') :
    style.color = style'.color := by
  -- The title begins with an escape in one of the two cases only.
  have title := (List.cons.inj (List.cons.inj same).2).1
  rw [toList_paint, toList_paint] at title
  cases own : style.color <;> cases other : style'.color
  · rfl
  · simp [own, other] at title
  · simp [own, other] at title
  · rfl

/-- The text tells the counts and the names in their order. -/
theorem eq_of_text_eq {summary summary' : Summary} {order order' : List String}
    (free : ∀ name ∈ order, '\n' ∉ name.toList) (free' : ∀ name ∈ order', '\n' ∉ name.toList)
    (same : style.text summary order = style.text summary' order') :
    summary = summary' ∧ order = order' := by
  -- The blocks tell the rows of the summary, and behind these the rows of both texts are the same.
  have blocks := congrArg style.block? same
  rw [block?_text, block?_text, Option.some.injEq, ← String.toList_inj, toList_summaryLines,
    toList_summaryLines] at blocks
  have summaries := endedRows_inj (style.lineFeed_not_mem_summaryRows summary)
    (style.lineFeed_not_mem_summaryRows summary') blocks
  have rows := style.rows_eq_of_text_eq free free' same
  rw [leadingRows, leadingRows, summaries, levelsRows, levelsRows] at rows
  simp only [List.append_assoc, List.append_cancel_left_eq] at rows
  obtain ⟨levels, behind⟩ := List.append_inj rows rfl
  have metrics := levelRows_inj levels
  exact ⟨style.summaryRows_inj metrics summaries,
    numberedRows_inj (List.append_cancel_left behind)⟩

/-- The text of a report tells the summary and the order of names without line feeds, in colors or
not. The block of a JSON report reads back as the summary. In colors the first painted lines of a
report are its accents, and without the escape sequences of these it is the report without colors. -/
theorem report_loses_nothing (format : Format) :
    (∀ color color' summary summary' order order',
      (∀ name ∈ order, '\n' ∉ name.toList) → (∀ name ∈ order', '\n' ∉ name.toList) →
        text ⟨format, color⟩ summary order = text ⟨format, color'⟩ summary' order' →
          summary = summary' ∧ order = order') ∧
      (∀ color summary order, format = .json → summary.Fits →
        (block? ⟨format, color⟩ (text ⟨format, color⟩ summary order)).bind Summary.parse? =
          some summary) ∧
      ∀ summary order,
        accents ⟨format, true⟩ summary <+: paintedLines (text ⟨format, true⟩ summary order) ∧
          unpainted (accents ⟨format, true⟩ summary).length (text ⟨format, true⟩ summary order) =
            text ⟨format, false⟩ summary order := by
  -- The rows of a text are told by it, and the summary, the names and the paint by the rows.
  refine ⟨?_, ?_, ?_⟩
  · intro color color' summary summary' order order' free free' same
    have rows := rows_eq_of_text_eq _ free free' same
    have painted : color = color' := color_eq_of_rows_eq _ rows
    subst painted
    exact eq_of_text_eq _ free free' same
  · intro color summary order json fits
    exact parse?_block _ json fits order
  · exact unpainted_text format

/-- A summary with the widest count and files that failed. -/
def crowded : Summary where
  totals := ⟨1, 0, 20, 3, 0⟩
  templates := ⟨wordBound - 1, 1, 0, 2⟩
  complexity := ⟨1, 0, 0⟩
  filesAnalyzed := 12
  filesFailed := 3

/-- Names that look like lines of a report, or have escape sequences in them. -/
def lookalikes : List String :=
  ["High Complexity Components: 1", "", "2. ", "\x1b[31m3 could not be read\x1b[0m", "\x7d"]

/-- Also a report with such names tells them, and its block reads back. -/
theorem report_loses_nothing_lookalikes :
    crowded.Fits ∧
      text ⟨.json, true⟩ crowded lookalikes ≠ text ⟨.json, true⟩ crowded lookalikes.reverse ∧
      lookalikes.reverse.reverse = lookalikes ∧
      (block? ⟨.json, true⟩ (text ⟨.json, true⟩ crowded lookalikes)).bind Summary.parse? =
        some crowded := by
  -- The names look like parts of the report, but have no line feeds.
  have totals : ∀ category, crowded.totals.get category < wordBound := by
    intro category
    cases category <;> decide
  have fits : crowded.Fits :=
    { totals
      templates := ⟨by decide, by decide, by decide, by decide⟩
      complexity := ⟨by decide, by decide, by decide⟩
      filesAnalyzed := by decide
      filesFailed := by decide }
  have free : ∀ name ∈ lookalikes, '\n' ∉ name.toList := by decide
  have free' : ∀ name ∈ lookalikes.reverse, '\n' ∉ name.toList := by decide
  have free'' : ∀ name ∈ lookalikes.reverse.reverse, '\n' ∉ name.toList := by decide
  obtain ⟨told, block, -⟩ := report_loses_nothing .json
  refine ⟨fits, fun same => ?_, ?_, block true crowded lookalikes rfl fits⟩
  · have names := (told true true crowded crowded _ _ free free' same).2
    exact absurd names (by decide)
  · exact (told true true crowded crowded _ _ free'' free rfl).2

end Stocktake.Style
