import Stocktake.Proofs.Json.RoundTrip
import Stocktake.Report.Artifact

/-! A report whose counters have 64 bits reads back from the text of its artifact. -/

namespace Stocktake

open Json (Value)

/-- An object whose names are texts shows its members. -/
theorem shape_record (members : List (String × Value)) :
    Document.shape (Value.record members) = .fields members := by
  -- Each name is found to be a text in turn.
  have named : (members.map fun member => ((some member.1 : Json.Text), member.2)).mapM
      (fun member => member.1.map fun name => (name, member.2)) = some members := by
    induction members with
    | nil => rfl
    | cons member members ih =>
      rw [List.map_cons, List.mapM_cons, ih]
      rfl
  change jsonShape _ = _
  simp only [jsonShape, Value.record, named]

/-- In a list without repeated names each member is found by its name. -/
private theorem find?_of_distinct {members : List (String × Value)}
    (distinct : (members.map Prod.fst).Nodup) {member : String × Value}
    (inside : member ∈ members) :
    members.find? (·.1 == member.1) = some member := by
  -- The first member with the name is the only one.
  induction members with
  | nil => simp at inside
  | cons first members ih =>
    rw [List.map_cons, List.nodup_cons] at distinct
    rcases List.mem_cons.mp inside with rfl | inside
    · simp
    · -- A later member has another name than the first one.
      have apart : first.1 ≠ member.1 := by
        intro same
        exact distinct.1 (same ▸ List.mem_map_of_mem inside)
      simpa [apart] using ih distinct.2 inside

/-- The fields of a structure that is written as an object are read in the same order. -/
theorem fields_record (names : List String) {members : List (String × Value)}
    (named : members.map Prod.fst = names) (distinct : names.Nodup) :
    Decode.fields names (Value.record members) =
      some (members.map fun member => some member.2) := by
  subst named
  -- No member is passed over, and none comes twice.
  have passes : (members.all fun member =>
      (members.map Prod.fst).contains member.1 || Document.isReadable member.2) = true := by
    simp only [List.all_eq_true, Bool.or_eq_true]
    exact fun member inside => .inl (by simpa using ⟨member.2, inside⟩)
  have once : ((members.map Prod.fst).all fun name =>
      decide ((members.filter (·.1 == name)).length ≤ 1)) = true := by
    simp only [List.all_eq_true, decide_eq_true_eq]
    intro name _
    have count := List.nodup_iff_count.mp distinct name
    rw [List.count_eq_length_filter, List.filter_map, List.length_map] at count
    exact count
  have found : (members.map Prod.fst).map
        (fun name => (members.find? (·.1 == name)).map Prod.snd) =
      members.map fun member => some member.2 := by
    rw [List.map_map]
    refine List.map_congr_left fun member inside => ?_
    rw [Function.comp_apply, find?_of_distinct distinct inside]
    rfl
  simp only [Decode.fields, shape_record, passes, once, found, Bool.and_self, if_true]

/-- A field that is there is read as its value. -/
private theorem required_some {α : Type} (read : Value → Option α) (value : Value) :
    Decode.required read (some value) = read value :=
  -- Only a missing field is refused without a reading.
  rfl

/-- An array of texts is plain. -/
private theorem plain_texts (contents : List String) :
    (Value.array (contents.map .text)).Plain := by
  -- Each item is a text, which has no number in it.
  refine Json.plain_array fun item member => ?_
  obtain ⟨content, _, rfl⟩ := List.mem_map.mp member
  trivial

/-- A counter reads back from its number. -/
private theorem natural_natural {n : Nat} (fits : n < wordBound) :
    Decode.natural (Value.natural n) = some n :=
  -- The number is within the bound that the reader asks for.
  if_pos fits

/-- A truth value reads back. -/
private theorem bool_bool (truth : Bool) : Decode.bool (Value.bool truth) = some truth :=
  -- The reader takes it as it is.
  rfl

/-- A text reads back. -/
private theorem text_text (content : String) : Decode.text (Value.text content) = some content :=
  -- The reader takes it as it is.
  rfl

/-- A list reads back when each of its items does. -/
private theorem list_array {α : Type} {write : α → Value} {read : Value → Option α}
    {items : List α}
    (reads : ∀ item ∈ items, read (write item) = some item) :
    Decode.list read (Value.array (items.map write)) = some items := by
  -- The items are read from the first to the last, and one failure would end the reading.
  change (items.map write).mapM read = some items
  induction items with
  | nil => rfl
  | cons item items ih =>
    rw [List.map_cons, List.mapM_cons, reads item (by simp),
      ih fun one inside => reads one (by simp [inside])]
    rfl

/-- A list of texts reads back. -/
private theorem list_text (contents : List String) :
    Decode.list Decode.text (Value.array (contents.map .text)) = some contents :=
  -- Each text reads back without a condition.
  list_array fun _ _ => rfl

namespace TemplateTally

/-- Every count has 64 bits. -/
structure Fits (tally : TemplateTally) : Prop where
  total : tally.total < wordBound
  withTranslations : tally.withTranslations < wordBound
  withForms : tally.withForms < wordBound
  withDirectives : tally.withDirectives < wordBound

/-- Written counts read back. -/
theorem ofJson?_toJson {tally : TemplateTally} (fits : tally.Fits) :
    ofJson? tally.toJson = some tally := by
  -- The fields are found by their names, and each of the counts fits.
  rw [ofJson?, toJson, fields_record fieldNames rfl (by decide)]
  simp [fieldNames, required_some, natural_natural, fits.total, fits.withTranslations,
    fits.withForms, fits.withDirectives]

/-- Counts are written with natural numbers only. -/
theorem plain_toJson (tally : TemplateTally) : tally.toJson.Plain := by
  -- Each member is a natural number.
  simp [toJson, fieldNames, Value.record, Value.Plain, Json.PlainMembers]

end TemplateTally

namespace Metrics

/-- Every count has 64 bits. -/
structure Fits (metrics : Metrics) : Prop where
  high : metrics.high < wordBound
  medium : metrics.medium < wordBound
  low : metrics.low < wordBound

/-- Written counts read back. -/
theorem ofJson?_toJson {metrics : Metrics} (fits : metrics.Fits) :
    ofJson? metrics.toJson = some metrics := by
  -- The fields are found by their names, and each of the counts fits here, too.
  rw [ofJson?, toJson, fields_record fieldNames rfl (by decide)]
  simp [fieldNames, required_some, natural_natural, fits.high, fits.medium, fits.low]

/-- Counts are written with natural numbers only. -/
theorem plain_toJson (metrics : Metrics) : metrics.toJson.Plain := by
  -- Each member is a natural number here, too.
  simp [toJson, fieldNames, Value.record, Value.Plain, Json.PlainMembers]

end Metrics

namespace Construct

/-- Every counter of a construct has 64 bits. -/
structure Fits (construct : Construct) : Prop where
  loc : construct.loc < wordBound
  directiveCount : construct.markers.directiveCount < wordBound

/-- A written construct reads back. -/
theorem ofJson?_toJson {construct : Construct} (fits : construct.Fits) :
    ofJson? construct.toJson = some construct := by
  -- Each field has its own kind of value, and the two counters fit.
  rw [ofJson?, toJson, fields_record fieldNames rfl (by decide)]
  simp [fieldNames, required_some, natural_natural, bool_bool, text_text, list_text,
    fits.loc, fits.directiveCount]

/-- A construct is written without any number but counters. -/
theorem plain_toJson (construct : Construct) : construct.toJson.Plain := by
  -- Besides the two counters there are texts and truth values.
  have dependencies := plain_texts construct.dependencies
  simp only [Value.Plain] at dependencies
  simp [toJson, fieldNames, Value.record, Value.text, Value.Plain, Json.PlainMembers, dependencies]

end Construct

namespace Summary

/-- Every count of a summary has 64 bits. -/
structure Fits (summary : Summary) : Prop where
  totals : ∀ category, summary.totals.get category < wordBound
  templates : summary.templates.Fits
  complexity : summary.complexity.Fits
  filesAnalyzed : summary.filesAnalyzed < wordBound
  filesFailed : summary.filesFailed < wordBound

/-- A written summary reads back. -/
theorem ofJson?_toJson {summary : Summary} (fits : summary.Fits) :
    ofJson? summary.toJson = some summary := by
  -- The totals are counters, and the two inner records read back.
  have components : summary.totals.components < wordBound := fits.totals .component
  have directives : summary.totals.directives < wordBound := fits.totals .directive
  have controllers : summary.totals.controllers < wordBound := fits.totals .controller
  have services : summary.totals.services < wordBound := fits.totals .service
  have factories : summary.totals.factories < wordBound := fits.totals .factory
  rw [ofJson?, toJson, fields_record fieldNames rfl (by decide)]
  simp [fieldNames, ByCategory.toList, Category.all, ByCategory.get, required_some,
    natural_natural, components, directives, controllers, services, factories,
    TemplateTally.ofJson?_toJson fits.templates, Metrics.ofJson?_toJson fits.complexity,
    fits.filesAnalyzed, fits.filesFailed]

/-- A summary is written with natural numbers only. -/
theorem plain_toJson (summary : Summary) : summary.toJson.Plain := by
  -- The totals are numbers, and the two inner records are plain.
  simp [toJson, fieldNames, ByCategory.toList, Category.all, Value.record, Value.Plain,
    Json.PlainMembers, TemplateTally.plain_toJson, Metrics.plain_toJson]

end Summary

namespace Report

/-- Every counter of a report has 64 bits, which is all the room that a counter has. -/
structure Fits (report : Report) : Prop where
  summary : report.summary.Fits
  constructs : ∀ category, ∀ construct ∈ report.constructs.get category, construct.Fits
  templates : report.templates.Fits

/-- A list of constructs reads back. -/
private theorem list_constructs {constructs : List Construct}
    (fit : ∀ construct ∈ constructs, construct.Fits) :
    Decode.list Construct.ofJson? (Value.array (constructs.map Construct.toJson)) =
      some constructs :=
  -- Each construct reads back when its counters fit.
  list_array fun construct member => Construct.ofJson?_toJson (fit construct member)

/-- The dependencies of each name read back, with the names in the same order. -/
theorem map_dependenciesToJson (dependencies : DependencyMap) :
    Decode.map (Decode.list Decode.text) (dependenciesToJson dependencies) = some dependencies := by
  -- Each list of names reads back, and a map is told by its entries.
  have shape := shape_record (dependencies.entries.map fun entry =>
    (entry.1, Value.array (entry.2.map .text)))
  have entries : (dependencies.entries.map fun entry =>
      (entry.1, Value.array (entry.2.map .text))).mapM
        (fun member => do return (member.1, ← Decode.list Decode.text member.2)) =
      some dependencies.entries := by
    induction dependencies.entries with
    | nil => rfl
    | cons entry entries ih =>
      rw [List.map_cons, List.mapM_cons, ih, list_text]
      rfl
  rw [Decode.map, dependenciesToJson, shape]
  dsimp only
  rw [entries]
  exact congrArg some dependencies.ofList_entries

/-- A written report reads back. -/
theorem ofJson?_toJson {report : Report} (fits : report.Fits) :
    ofJson? report.toJson = some report := by
  -- Each collection reads back on its own, and so do the summary and the dependencies.
  have components := list_constructs (fits.constructs .component)
  have directives := list_constructs (fits.constructs .directive)
  have controllers := list_constructs (fits.constructs .controller)
  have services := list_constructs (fits.constructs .service)
  have factories := list_constructs (fits.constructs .factory)
  simp only [ByCategory.get] at components directives controllers services factories
  rw [ofJson?, toJson, fields_record fieldNames rfl (by decide)]
  simp [fieldNames, ByCategory.toList, Category.all, ByCategory.get, required_some, components,
    directives, controllers, services, factories, Summary.ofJson?_toJson fits.summary,
    map_dependenciesToJson, TemplateTally.ofJson?_toJson fits.templates]

/-- A report is written without any number but counters. -/
theorem plain_toJson (report : Report) : report.toJson.Plain := by
  -- Every member of the record is plain: the summary, the collections, the dependencies, the
  -- counts.
  have collection : ∀ constructs : List Construct,
      (Value.array (constructs.map Construct.toJson)).Plain := fun constructs =>
    Json.plain_array fun item member => by
      obtain ⟨construct, _, rfl⟩ := List.mem_map.mp member
      exact construct.plain_toJson
  have dependencies : (dependenciesToJson report.dependencies).Plain :=
    Json.plain_record fun member inside => by
      obtain ⟨entry, _, rfl⟩ := List.mem_map.mp inside
      exact plain_texts entry.2
  refine Json.plain_record fun member inside => ?_
  simp only [fieldNames, ByCategory.toList, Category.all, List.map_cons, List.map_nil,
    List.cons_append, List.nil_append, List.zip_cons_cons, List.zip_nil_right, List.mem_cons,
    List.not_mem_nil, or_false] at inside
  rcases inside with rfl | rfl | rfl | rfl | rfl | rfl | rfl | rfl
  · exact report.summary.plain_toJson
  iterate 5 exact collection _
  · exact dependencies
  · exact report.templates.plain_toJson

/-- The text of a report reads back as that report, with every list and the names in order. -/
theorem parse?_render_report {report : Report} (fits : report.Fits) :
    parse? report.render = some report := by
  -- The text gives the value back, and the value gives the report back.
  rw [parse?, render, Json.parse?_render report.plain_toJson, Option.bind_eq_bind,
    Option.bind_some, ofJson?_toJson fits]

/-- A construct with quotes, escapes and control characters in its texts, and the widest counter. -/
def awkwardConstruct : Construct where
  name := "\"\\\x07\t"
  path := "a\nb"
  dependencies := ["\x7d,", "😀", ""]
  loc := wordBound - 1
  markers := ⟨true, false, true, false, 0⟩

/-- A report of that construct whose map has names that look like marks of the format. -/
def awkward : Report where
  summary := ⟨⟨1, 0, 0, 0, 0⟩, ⟨wordBound - 1, 0, 0, 0⟩, ⟨1, 0, 0⟩, wordBound - 1, 0⟩
  constructs := ⟨[awkwardConstruct], [], [], [], []⟩
  dependencies := ⟨[("\":", []), ("", ["[1]", "null"])], by decide⟩
  templates := ⟨0, 0, 0, 0⟩

/-- Also the awkward report reads back. -/
theorem parse?_render_awkward : awkward.Fits ∧ parse? awkward.render = some awkward := by
  -- Every counter is checked against the bound.
  have summary : awkward.summary.Fits :=
    { totals := fun category => by cases category <;> decide
      templates := ⟨by decide, by decide, by decide, by decide⟩
      complexity := ⟨by decide, by decide, by decide⟩
      filesAnalyzed := by decide
      filesFailed := by decide }
  have construct : awkwardConstruct.Fits := ⟨by decide, by decide⟩
  have fits : awkward.Fits :=
    { summary
      constructs := fun category => by cases category <;> simp [awkward, ByCategory.get, construct]
      templates := ⟨by decide, by decide, by decide, by decide⟩ }
  exact ⟨fits, parse?_render_report fits⟩

end Report

end Stocktake
