import Stocktake.Proofs.Json.Layout
import Stocktake.Proofs.Report.Artifact
import Stocktake.Proofs.Text.Rows

/-! The rows of a console report: headers, the summary, the levels and the numbered names. No row
before the names has a line feed, and the rows tell what was counted. -/

namespace Stocktake

/-- A label with a number behind it. -/
def counted (label : String) (n : Nat) : List Char :=
  label.toList ++ Nat.toDigits 10 n

/-- The digits of a number are no other characters. -/
theorem not_mem_toDigits {c : Char} (other : c.isDigit = false) (n : Nat) :
    c ∉ Nat.toDigits 10 n := by
  -- Each character of the digits is a digit.
  intro member
  rw [Nat.isDigit_of_mem_toDigits (by decide) (by decide) member] at other
  cases other

/-- A number is told by its digits. -/
theorem eq_of_toDigits_eq {n n' : Nat} (same : Nat.toDigits 10 n = Nat.toDigits 10 n') :
    n = n' := by
  -- The value that digits spell gives the number back.
  have values := congrArg (Nat.ofDigitChars 10 · 0) same
  simpa only [Nat.ofDigitChars_ten_toDigits] using values

/-- Behind a label a number is told by the text. -/
theorem counted_inj {label : String} {n n' : Nat} (same : counted label n = counted label n') :
    n = n' :=
  -- The label is taken off the front of both texts.
  eq_of_toDigits_eq (List.append_cancel_left same)

/-- A text does not go on with a digit. -/
def EndsDigits (text : List Char) : Prop :=
  ∀ c ∈ text.head?, c.isDigit = false

/-- The digits of a number are all that stands before the first character that is no digit. -/
theorem takeWhile_toDigits_append (n : Nat) {text : List Char} (ends : EndsDigits text) :
    (Nat.toDigits 10 n ++ text).takeWhile Char.isDigit = Nat.toDigits 10 n := by
  -- All digits are taken, and the text behind them does not go on with one.
  have digits : ∀ c ∈ Nat.toDigits 10 n, c.isDigit = true := fun c member =>
    Nat.isDigit_of_mem_toDigits (by decide) (by decide) member
  rw [List.takeWhile_append_of_pos digits]
  cases text with
  | nil => exact List.append_nil _
  | cons c text =>
    rw [List.takeWhile_cons_of_neg (by simp [ends c rfl]), List.append_nil]

/-- Behind a label a number is told by a text that does not go on with a digit. -/
theorem counted_append_inj {label : String} {n n' : Nat} {text text' : List Char}
    (ends : EndsDigits text) (ends' : EndsDigits text')
    (same : counted label n ++ text = counted label n' ++ text') : n = n' ∧ text = text' := by
  -- Behind the label the digits end where the texts go on, so they can be told apart from these.
  rw [counted, counted, List.append_assoc, List.append_assoc] at same
  have behind := List.append_cancel_left same
  have digits := congrArg (List.takeWhile Char.isDigit) behind
  rw [takeWhile_toDigits_append n ends, takeWhile_toDigits_append n' ends'] at digits
  rw [digits] at behind
  exact ⟨eq_of_toDigits_eq digits, List.append_cancel_left behind⟩

/-- The row of the counts of templates. -/
def templatesRow (tally : TemplateTally) : List Char :=
  counted "Templates:   " tally.total ++
    (counted " (translations: " tally.withTranslations ++
      (counted ", forms: " tally.withForms ++
        (counted ", directives: " tally.withDirectives ++ [')'])))

/-- The counts of templates are told by their row. -/
theorem templatesRow_inj {tally tally' : TemplateTally}
    (same : templatesRow tally = templatesRow tally') : tally = tally' := by
  -- Each label begins with a blank or a comma, which ends the number before it.
  have translations : ∀ n text, EndsDigits (counted " (translations: " n ++ text) := by
    simp [EndsDigits, counted]
  have forms : ∀ n text, EndsDigits (counted ", forms: " n ++ text) := by
    simp [EndsDigits, counted]
  have directives : ∀ n text, EndsDigits (counted ", directives: " n ++ text) := by
    simp [EndsDigits, counted]
  have bracket : EndsDigits [')'] := by simp [EndsDigits]
  obtain ⟨first, behind⟩ := counted_append_inj (translations _ _) (translations _ _) same
  obtain ⟨second, behind⟩ := counted_append_inj (forms _ _) (forms _ _) behind
  obtain ⟨third, behind⟩ := counted_append_inj (directives _ _) (directives _ _) behind
  obtain ⟨fourth, -⟩ := counted_append_inj bracket bracket behind
  rw [TemplateTally.mk.injEq]
  exact ⟨first, second, third, fourth⟩

/-- The rows of the counts by level. -/
def levelRows (metrics : Metrics) : List (List Char) :=
  [ counted "High Complexity Components: " metrics.high,
    counted "Medium Complexity Components: " metrics.medium,
    counted "Low Complexity Components: " metrics.low ]

/-- The counts by level are told by their rows. -/
theorem levelRows_inj {metrics metrics' : Metrics} (same : levelRows metrics = levelRows metrics') :
    metrics = metrics' := by
  -- There is one row for each level, with its own label.
  simp only [levelRows, List.cons.injEq, and_true] at same
  obtain ⟨high, medium, low⟩ := same
  rw [Metrics.mk.injEq]
  exact ⟨counted_inj high, counted_inj medium, counted_inj low⟩

/-- The rows of names that are numbered from a given number on. -/
def numberedRows (first : Nat) : List String → List (List Char)
  | [] => []
  | name :: names =>
    (counted "" first ++ (". ".toList ++ name.toList)) :: numberedRows (first + 1) names

/-- Names are told by their numbered rows, whatever they look like. -/
theorem numberedRows_inj {first : Nat} {names names' : List String}
    (same : numberedRows first names = numberedRows first names') : names = names' := by
  -- The numbers are the same on both sides, and what stands behind them is the name.
  induction names generalizing first names' with
  | nil =>
    cases names' with
    | nil => rfl
    | cons name' names' => exact absurd same (by simp [numberedRows])
  | cons name names ih =>
    cases names' with
    | nil => exact absurd same (by simp [numberedRows])
    | cons name' names' =>
      obtain ⟨row, rows⟩ := List.cons.inj same
      have one := List.append_cancel_left (List.append_cancel_left row)
      rw [String.toList_inj.mp one, ih rows]

/-- Numbered rows have no line feeds when the names have none. -/
theorem lineFeed_not_mem_numberedRows {first : Nat} {names : List String}
    (free : ∀ name ∈ names, '\n' ∉ name.toList) :
    ∀ row ∈ numberedRows first names, '\n' ∉ row := by
  -- A row is a number, a mark and a name, and only the name could have a line feed.
  induction names generalizing first with
  | nil => exact fun _ member => nomatch member
  | cons name names ih =>
    intro row member
    rcases List.mem_cons.mp member with rfl | later
    · simpa [counted, not_mem_toDigits] using free name List.mem_cons_self
    · exact ih (fun one inside => free one (List.mem_cons_of_mem name inside)) row later

/-- The values of named fields are told by the object that they make up. -/
theorem Json.Value.values_of_record_eq {names : List String} {values values' : List Json.Value}
    (named : values.length ≤ names.length) (named' : values'.length ≤ names.length)
    (same : record (names.zip values) = record (names.zip values')) : values = values' := by
  -- The values are the second parts of the members, in order.
  have members := congrArg (List.map Prod.snd) (Json.Value.object.inj same)
  simp only [List.map_map, Function.comp_def] at members
  exact (List.map_snd_zip named).symm.trans (members.trans (List.map_snd_zip named'))

/-- Counts of templates are told by their JSON, of any width. -/
theorem TemplateTally.eq_of_toJson_eq {tally tally' : TemplateTally}
    (same : tally.toJson = tally'.toJson) : tally = tally' := by
  -- There are as many names as values, and the values are the counts themselves.
  have values := Json.Value.values_of_record_eq (by simp [fieldNames]) (by simp [fieldNames]) same
  simp only [List.cons.injEq, Json.Value.natural.injEq, and_true] at values
  rw [TemplateTally.mk.injEq]
  exact values

/-- Counts by level are told by their JSON, of any width. -/
theorem Metrics.eq_of_toJson_eq {metrics metrics' : Metrics}
    (same : metrics.toJson = metrics'.toJson) : metrics = metrics' := by
  -- As with the counts of templates, the values are the counts by level.
  have values := Json.Value.values_of_record_eq (by simp [fieldNames]) (by simp [fieldNames]) same
  simp only [List.cons.injEq, Json.Value.natural.injEq, and_true] at values
  rw [Metrics.mk.injEq]
  exact values

/-- A summary is told by its JSON, with counts of any width. -/
theorem Summary.eq_of_toJson_eq {summary summary' : Summary}
    (same : summary.toJson = summary'.toJson) : summary = summary' := by
  -- The totals are five of the values, and two further ones are records that tell their counts.
  have counts : ∀ totals : ByCategory Nat, totals.toList.length = 5 := fun _ => rfl
  have values := Json.Value.values_of_record_eq (by simp [fieldNames, counts])
    (by simp [fieldNames, counts]) same
  simp only [ByCategory.toList, Category.all, ByCategory.get, List.map_cons, List.map_nil,
    List.cons_append, List.nil_append, List.cons.injEq, Json.Value.natural.injEq,
    and_true] at values
  obtain ⟨components, directives, controllers, services, factories, templates, levels, files,
    failed⟩ := values
  rw [Summary.mk.injEq, ByCategory.mk.injEq]
  exact ⟨⟨components, directives, controllers, services, factories⟩,
    TemplateTally.eq_of_toJson_eq templates, Metrics.eq_of_toJson_eq levels, files, failed⟩

namespace Style

variable (style : Style)

/-- The rows of a header: an empty one, the title, and the line under it. -/
def headerRows (title : String) : List (List Char) :=
  [] :: (style.titleLines title).map String.toList

/-- The rows of the counts of templates and of all other counts but those by level. -/
def countRows (summary : Summary) : List (List Char) :=
  [ counted "Components:  " summary.totals.components,
    counted "Directives:  " summary.totals.directives,
    counted "Controllers: " summary.totals.controllers,
    counted "Services:    " summary.totals.services,
    counted "Factories:   " summary.totals.factories,
    templatesRow summary.templates,
    counted "Files:       " summary.filesAnalyzed ++ " analyzed".toList ]

/-- The rows of a summary. -/
def summaryRows (summary : Summary) : List (List Char) :=
  match style.format with
  | .json => summary.toJson.render.toList.splitOn '\n'
  | .terminal => countRows summary ++ (style.failureLines summary).map String.toList

/-- The rows of a report behind its summary and before the names. -/
def levelsRows (metrics : Metrics) : List (List Char) :=
  style.headerRows "Migration Complexity Analysis:" ++
    (levelRows metrics ++ style.headerRows "Suggested Migration Order:")

/-- The rows of a report before the names. -/
def leadingRows (summary : Summary) : List (List Char) :=
  style.headerRows "Component Analysis Summary:" ++
    (style.summaryRows summary ++ style.levelsRows summary.complexity)

/-- A header is made up of its rows. -/
theorem toList_header (title : String) :
    (style.header title).toList = endedRows (style.headerRows title) := by
  -- Three lines end with a line feed each.
  simp [header, headerRows, titleLines, endedRows]

/-- The lines of a summary are made up of its rows. -/
theorem toList_summaryLines (summary : Summary) :
    (String.join (style.summaryLines summary)).toList = endedRows (style.summaryRows summary) := by
  -- The JSON is one text with several lines, and the counts are one text for each line.
  rw [summaryLines, summaryRows, failureLines]
  cases style.format with
  | json =>
    rw [endedRows_splitOn]
    simp
  | terminal =>
    rw [endedRows_append, String.toList_join, List.flatMap_append]
    congr 1
    · simp [countRows, templatesRow, counted, endedRows]
    · split <;> simp_all [endedRows]

/-- Numbered names are made up of their rows. -/
theorem toList_numbered (first : Nat) (names : List String) :
    (String.join (numbered first names)).toList = endedRows (numberedRows first names) := by
  -- Each name is a row of its own, with its number in front.
  induction names generalizing first with
  | nil => rfl
  | cons name names ih =>
    rw [numbered, String.join_cons, String.toList_append, ih, numberedRows, endedRows_cons]
    simp [counted]

/-- A report is made up of its rows. -/
theorem toList_text (summary : Summary) (order : List String) :
    (style.text summary order).toList =
      endedRows (style.leadingRows summary) ++ endedRows (numberedRows 1 order) := by
  -- The report joins texts that end with line feeds, and rows are joined the same way.
  have levels : endedRows (levelRows summary.complexity) =
      ("High Complexity Components: " ++ summary.complexity.high.repr ++ "\n").toList ++
        (("Medium Complexity Components: " ++ summary.complexity.medium.repr ++ "\n").toList ++
          ("Low Complexity Components: " ++ summary.complexity.low.repr ++ "\n").toList) := by
    simp [levelRows, counted, endedRows]
  simp only [text, report, String.join_append, String.join_cons, String.join_nil,
    String.toList_append, toList_numbered, toList_header, toList_summaryLines, leadingRows,
    levelsRows, endedRows_append, levels]
  simp

/-- A painted text is the text between two escape sequences, or the text alone. -/
theorem toList_paint (code text : String) :
    (style.paint code text).toList =
      if style.color then
        "\x1b[".toList ++ (code.toList ++ ('m' :: (text.toList ++ "\x1b[0m".toList)))
      else text.toList := by
  -- Whether there is color decides on both sequences at once.
  rw [paint]
  split <;> simp [painted]

/-- Paint has no line feed in it. -/
theorem lineFeed_not_mem_paint {code text : String} (free : '\n' ∉ code.toList)
    (free' : '\n' ∉ text.toList) : '\n' ∉ (style.paint code text).toList := by
  -- The sequences have no line feed either.
  rw [toList_paint]
  split <;> simp [free, free']

/-- The rows of a header have no line feed when the title has none. -/
theorem lineFeed_not_mem_headerRows {title : String} (free : '\n' ∉ title.toList) :
    ∀ row ∈ style.headerRows title, '\n' ∉ row := by
  -- The line under the title consists of equals signs.
  have first : '\n' ∉ (style.paint "1;36" title).toList :=
    style.lineFeed_not_mem_paint (by decide) free
  have second : '\n' ∉ (style.paint "2" (String.ofList (List.replicate title.length '='))).toList :=
    style.lineFeed_not_mem_paint (by decide) (by simp)
  simp [headerRows, titleLines, first, second]

/-- The rows of a summary have no line feed. -/
theorem lineFeed_not_mem_summaryRows (summary : Summary) :
    ∀ row ∈ style.summaryRows summary, '\n' ∉ row := by
  -- The lines of the JSON are split at line feeds, and the counts are digits behind labels.
  rw [summaryRows]
  cases style.format with
  | json => exact fun row member => not_mem_of_mem_splitOn member
  | terminal =>
    have number : ∀ n, '\n' ∉ Nat.toDigits 10 n := not_mem_toDigits (by decide)
    have failed : '\n' ∉
        (style.paint "31" (summary.filesFailed.repr ++ " could not be read")).toList :=
      style.lineFeed_not_mem_paint (by decide) (by simp [number])
    simp [countRows, failureLines, templatesRow, counted, number, failed]

/-- No row of a report before the names has a line feed. -/
theorem lineFeed_not_mem_leadingRows (summary : Summary) :
    ∀ row ∈ style.leadingRows summary, '\n' ∉ row := by
  -- Titles are fixed texts, and the rows between them are those of the summary and the levels.
  have number : ∀ n, '\n' ∉ Nat.toDigits 10 n := not_mem_toDigits (by decide)
  have levels : ∀ row ∈ levelRows summary.complexity, '\n' ∉ row := by
    simp [levelRows, counted, number]
  intro row member
  simp only [leadingRows, levelsRows, List.mem_append] at member
  rcases member with title | rows | title | rows | title
  · exact style.lineFeed_not_mem_headerRows (by decide) row title
  · exact style.lineFeed_not_mem_summaryRows summary row rows
  · exact style.lineFeed_not_mem_headerRows (by decide) row title
  · exact levels row rows
  · exact style.lineFeed_not_mem_headerRows (by decide) row title

/-- Paint hides nothing. -/
theorem paint_inj {code text text' : String}
    (same : style.paint code text = style.paint code text') : text = text' := by
  -- The sequences are the same on both sides and can be taken off.
  rw [← String.toList_inj, toList_paint, toList_paint] at same
  split at same
  · have behind := List.append_cancel_left (List.append_cancel_left same)
    exact String.toList_inj.mp (List.append_cancel_right (List.cons.inj behind).2)
  · exact String.toList_inj.mp same

/-- The files that failed are told by their line, or by its absence. -/
theorem filesFailed_eq {summary summary' : Summary} (terminal : style.format = .terminal)
    (same : style.failureLines summary = style.failureLines summary') :
    summary.filesFailed = summary'.filesFailed := by
  -- The line is there when some file failed, and then it spells how many.
  simp only [failureLines, terminal, reduceCtorEq, false_or] at same
  split at same <;> split at same
  · rename_i none none'
    rw [none, none']
  · cases same
  · cases same
  · obtain ⟨line, -⟩ := List.cons.inj same
    have spelled := style.paint_inj (String.append_right_inj _ |>.mp line)
    have digits := congrArg String.toList (String.append_left_inj _ |>.mp spelled)
    rw [Nat.toList_repr, Nat.toList_repr] at digits
    exact eq_of_toDigits_eq digits

/-- A summary is told by its rows and the counts by level, which are also among the rows of its
JSON. -/
theorem summaryRows_inj {summary summary' : Summary}
    (levels : summary.complexity = summary'.complexity)
    (same : style.summaryRows summary = style.summaryRows summary') : summary = summary' := by
  -- The JSON reads back, and of the counts each has a row of its own.
  rw [summaryRows, summaryRows] at same
  cases format : style.format with
  | json =>
    rw [format] at same
    have texts := congrArg (List.intercalate ['\n']) same
    simp only [List.intercalate_splitOn, String.toList_inj] at texts
    have values := congrArg Json.Value.parse? texts
    rw [Json.parse?_render summary.plain_toJson, Json.parse?_render summary'.plain_toJson] at values
    exact Summary.eq_of_toJson_eq (Option.some.inj values)
  | terminal =>
    rw [format] at same
    obtain ⟨counts, failures⟩ := List.append_inj same rfl
    have failed := style.filesFailed_eq format
      (List.map_injective_iff.mpr (fun _ _ => String.toList_inj.mp) failures)
    simp only [countRows, List.cons.injEq, and_true] at counts
    obtain ⟨components, directives, controllers, services, factories, templates, files⟩ := counts
    rw [Summary.mk.injEq, ByCategory.mk.injEq]
    exact ⟨⟨counted_inj components, counted_inj directives, counted_inj controllers,
      counted_inj services, counted_inj factories⟩, templatesRow_inj templates, levels,
      counted_inj (List.append_cancel_right files), failed⟩

end Style

end Stocktake
