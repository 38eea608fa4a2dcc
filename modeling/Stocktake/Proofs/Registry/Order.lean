import Mathlib.Data.List.Induction
import Stocktake.Proofs.Report.Counts

/-! The order of files decides on the order of lists in a report, and on nothing that it counts. -/

namespace Stocktake

/-- The counts over files that have these markers. -/
def TemplateTally.ofMarkers (files : List Markers) : TemplateTally where
  total := files.countP (·.hasAnyTemplate)
  withTranslations := files.countP fun markers => markers.hasAnyTemplate && markers.hasTranslations
  withForms := files.countP fun markers => markers.hasAnyTemplate && markers.hasForms
  withDirectives := files.countP fun markers => markers.hasAnyTemplate && markers.hasDirectives

/-- Counting one more file adds its markers to those that are counted. -/
theorem TemplateTally.count_ofMarkers (files : List Markers) (markers : Markers) :
    (ofMarkers files).count markers = ofMarkers (files ++ [markers]) := by
  -- A file without a template adds nothing, and any other one adds a bit to each of the counts.
  simp only [ofMarkers, List.countP_append, List.countP_singleton]
  rw [count]
  cases markers.hasAnyTemplate with
  | false => rfl
  | true =>
    cases markers.hasTranslations <;> cases markers.hasForms <;> cases markers.hasDirectives <;> rfl

/-- The counts over files do not depend on their order. -/
theorem TemplateTally.ofMarkers_perm {one other : List Markers} (permuted : one.Perm other) :
    ofMarkers one = ofMarkers other := by
  -- Each of the four counts is one of members of the list.
  rw [ofMarkers, ofMarkers]
  simp only [permuted.countP_eq]

namespace Recording

/-- The analysis that a recording brings, if it is that of a file. -/
def analysis? : Recording → Option Analysis
  | .file analysis => some analysis
  | _ => none

/-- The failure that a recording brings, if it is one. -/
def failure? : Recording → Option Failure
  | .failure told => some told
  | _ => none

end Recording

namespace Registry

/-- The last recording is made in the registry that the others have filled. -/
theorem ofRecordings_concat (recordings : List Recording) (last : Recording) :
    ofRecordings (recordings ++ [last]) = (ofRecordings recordings).perform last := by
  -- Recordings are made from the first to the last.
  rw [ofRecordings, List.foldl_append]
  rfl

/-- A registry has counted the templates of the files that were recorded, and each of them once. -/
theorem templates_ofRecordings (recordings : List Recording) :
    (ofRecordings recordings).templates =
      .ofMarkers ((recordings.filterMap Recording.analysis?).map Analysis.markers) := by
  -- The last recording counts its file, if it is one, behind all that were counted before.
  induction recordings using List.reverseRecOn with
  | nil => rfl
  | append_singleton recordings last ih =>
    rw [ofRecordings_concat, List.filterMap_append, List.map_append]
    cases last with
    | file analysis =>
      have counted : ((ofRecordings recordings).perform (.file analysis)).templates =
          (ofRecordings recordings).templates.count analysis.markers := rfl
      rw [counted, ih, TemplateTally.count_ofMarkers]
      rfl
    | declaration category construct =>
      have kept : ((ofRecordings recordings).perform (.declaration category construct)).templates =
          (ofRecordings recordings).templates := rfl
      rw [kept, ih]
      exact congrArg _ (List.append_nil _).symm
    | failure failure =>
      have kept : ((ofRecordings recordings).perform (.failure failure)).templates =
          (ofRecordings recordings).templates := rfl
      rw [kept, ih]
      exact congrArg _ (List.append_nil _).symm

/-- A registry has counted the files that were recorded, and lists the failures. -/
theorem files_ofRecordings (recordings : List Recording) :
    (ofRecordings recordings).filesAnalyzed =
        (recordings.filterMap Recording.analysis?).length ∧
      (ofRecordings recordings).failures = recordings.filterMap Recording.failure? := by
  -- A file adds to the one, a failure to the other, and a declaration to neither.
  induction recordings using List.reverseRecOn with
  | nil => exact ⟨rfl, rfl⟩
  | append_singleton recordings last ih =>
    obtain ⟨analyzed, failed⟩ := ih
    rw [ofRecordings_concat, List.filterMap_append,
      List.filterMap_append, List.length_append, ← analyzed, ← failed]
    cases last with
    | file analysis => exact ⟨rfl, (List.append_nil _).symm⟩
    | declaration category construct => exact ⟨rfl, (List.append_nil _).symm⟩
    | failure failure => exact ⟨rfl, rfl⟩

end Registry

namespace FileOutcome

/-- The constructs of a file, none when it could not be read. -/
def constructs (outcome : FileOutcome) : List (Category × Construct) :=
  (Registry.recordingOf outcome).constructs

/-- A file declares a name when it has a construct of that name. -/
def declares (name : String) (outcome : FileOutcome) : Bool :=
  outcome.constructs.any (·.2.name == name)

/-- A file that does not declare a name has no construct of it. -/
theorem filter_constructs_of_not_declares {name : String} {outcome : FileOutcome}
    (silent : ¬ outcome.declares name) : outcome.constructs.filter (·.2.name == name) = [] := by
  -- A construct of that name would make the file declare it.
  rw [List.filter_eq_nil_iff]
  intro entry member named
  exact silent (List.any_eq_true.mpr ⟨entry, member, named⟩)

/-- Only the files that declare a name decide on its dependencies. -/
theorem latestDependencies?_constructs (outcomes : List FileOutcome) (name : String) :
    latestDependencies? (outcomes.flatMap constructs) name =
      latestDependencies? ((outcomes.filter (·.declares name)).flatMap constructs) name := by
  -- The constructs of that name are the same ones, since the other files have none.
  have same : (outcomes.flatMap constructs).filter (·.2.name == name) =
      ((outcomes.filter (·.declares name)).flatMap constructs).filter (·.2.name == name) := by
    induction outcomes with
    | nil => rfl
    | cons outcome outcomes ih =>
      rw [List.flatMap_cons, List.filter_append, ih, List.filter_cons]
      split
      · rw [List.flatMap_cons, List.filter_append]
      · rename_i silent
        rw [filter_constructs_of_not_declares silent, List.nil_append]
  rw [latestDependencies?, same, latestDependencies?]

end FileOutcome

namespace Registry

/-- The registry of outcomes holds the constructs of their files. -/
theorem holds_ofOutcomes (outcomes : List FileOutcome) :
    (ofOutcomes outcomes).Holds (outcomes.flatMap FileOutcome.constructs) := by
  -- An outcome is one recording, of a file or of a failure.
  have holds := holds_ofRecordings (outcomes.map recordingOf)
  rwa [← ofOutcomes_eq_ofRecordings, List.flatMap_map] at holds

variable {one other : List FileOutcome}

/-- In any order files give collections with the same constructs. -/
theorem collection_perm (permuted : one.Perm other) (category : Category) :
    ((ofOutcomes one).collection category).Perm ((ofOutcomes other).collection category) := by
  -- A collection holds what the files bring, less the other categories.
  have brought : (one.flatMap FileOutcome.constructs).Perm
      (other.flatMap FileOutcome.constructs) := permuted.flatMap_right _
  rw [(holds_ofOutcomes one).collection, (holds_ofOutcomes other).collection]
  exact (brought.filter _).map _

/-- In any order files give dependencies for the same names. -/
theorem mem_keys_perm (permuted : one.Perm other) (name : String) :
    name ∈ (ofOutcomes one).dependencies.keys ↔ name ∈ (ofOutcomes other).dependencies.keys := by
  -- The names are those of all constructs that the files bring.
  have brought : (one.flatMap FileOutcome.constructs).Perm
      (other.flatMap FileOutcome.constructs) := permuted.flatMap_right _
  rw [(holds_ofOutcomes one).mem_keys, (holds_ofOutcomes other).mem_keys]
  exact (brought.map _).mem_iff

/-- In any order files give a name that one of them declares the same dependencies. -/
theorem get?_dependencies_perm (permuted : one.Perm other) {name : String}
    (unique : one.countP (·.declares name) = 1) :
    (ofOutcomes one).dependencies.get? name = (ofOutcomes other).dependencies.get? name := by
  -- In both orders it is the same single file that declares the name.
  rw [List.countP_eq_length_filter, List.length_eq_one_iff] at unique
  obtain ⟨declaring, only⟩ := unique
  have left := permuted.filter (·.declares name)
  rw [only] at left
  have only' := List.singleton_perm.mp left
  rw [(holds_ofOutcomes one).latest, (holds_ofOutcomes other).latest,
    FileOutcome.latestDependencies?_constructs one, only,
    FileOutcome.latestDependencies?_constructs other, ← only']

/-- In any order files give the same counts. -/
theorem counts_perm (permuted : one.Perm other) :
    (ofOutcomes one).templates = (ofOutcomes other).templates ∧
      (ofOutcomes one).filesAnalyzed = (ofOutcomes other).filesAnalyzed ∧
      (ofOutcomes one).failures.length = (ofOutcomes other).failures.length := by
  -- What is counted is the recordings of one kind, and both orders have the same of each.
  have made := permuted.map recordingOf
  rw [ofOutcomes_eq_ofRecordings, ofOutcomes_eq_ofRecordings]
  have files := files_ofRecordings (one.map recordingOf)
  have files' := files_ofRecordings (other.map recordingOf)
  refine ⟨?_, ?_, ?_⟩
  · rw [templates_ofRecordings, templates_ofRecordings]
    exact TemplateTally.ofMarkers_perm ((made.filterMap _).map _)
  · rw [files.1, files'.1]
    exact (made.filterMap _).length_eq
  · rw [files.2, files'.2]
    exact (made.filterMap _).length_eq

end Registry

/-- Metrics are told by the counts of their levels. -/
theorem Metrics.eq_of_get {one other : Metrics} (same : ∀ level, one.get level = other.get level) :
    one = other := by
  -- There are three levels, each with one count.
  cases one
  cases other
  have high := same .high
  have medium := same .medium
  have low := same .low
  simp only [get] at high medium low
  rw [high, medium, low]

/-- In any order constructs have the same number of each level. -/
theorem Thresholds.metrics_perm (thresholds : Thresholds) {one other : List Construct}
    (permuted : one.Perm other) : thresholds.metrics one = thresholds.metrics other := by
  -- A count of constructs depends on no order.
  refine Metrics.eq_of_get fun level => ?_
  rw [get_metrics, get_metrics]
  exact permuted.countP_eq _

/-- Tables are told by their entries. -/
theorem ByCategory.eq_of_get {α : Type} {one other : ByCategory α}
    (same : ∀ category, one.get category = other.get category) : one = other := by
  -- There are five categories, each with one entry.
  cases one
  cases other
  have components := same .component
  have directives := same .directive
  have controllers := same .controller
  have services := same .service
  have factories := same .factory
  simp only [get] at components directives controllers services factories
  rw [components, directives, controllers, services, factories]

namespace Report

/-- The reports of the same files in two orders have one summary, the same constructs in each
collection and the same names; the order of files shows in the dependencies of those names only
that several files declare. -/
theorem ofOutcomes_in_any_order {one other : List FileOutcome} (permuted : one.Perm other)
    (thresholds : Thresholds) :
    let report := ofRegistry thresholds (Registry.ofOutcomes one)
    let report' := ofRegistry thresholds (Registry.ofOutcomes other)
    report.summary = report'.summary ∧ report.templates = report'.templates ∧
      (∀ category, (report.constructs.get category).Perm (report'.constructs.get category)) ∧
      (∀ name, name ∈ report.dependencies.keys ↔ name ∈ report'.dependencies.keys) ∧
      ∀ name, one.countP (·.declares name) = 1 →
        report.dependencies.get? name = report'.dependencies.get? name := by
  intro report report'
  -- The registries agree in what they count, and in their collections but for the order.
  obtain ⟨templates, analyzed, failed⟩ := Registry.counts_perm permuted
  have collections := Registry.collection_perm permuted
  -- A report counts each collection, and the levels among the components.
  have totals : report.summary.totals = report'.summary.totals := by
    refine ByCategory.eq_of_get fun category => ?_
    have length := (collections category).length_eq
    calc report.summary.totals.get category
        = ((Registry.ofOutcomes one).collection category).length := ByCategory.get_map _ _ _
      _ = ((Registry.ofOutcomes other).collection category).length := length
      _ = report'.summary.totals.get category := (ByCategory.get_map _ _ _).symm
  have complexity : report.summary.complexity = report'.summary.complexity :=
    thresholds.metrics_perm (collections .component)
  have summary : report.summary = report'.summary := by
    calc report.summary
        = ⟨report.summary.totals, (Registry.ofOutcomes one).templates, report.summary.complexity,
            (Registry.ofOutcomes one).filesAnalyzed, (Registry.ofOutcomes one).failures.length⟩ :=
          rfl
      _ = ⟨report'.summary.totals, (Registry.ofOutcomes other).templates,
            report'.summary.complexity, (Registry.ofOutcomes other).filesAnalyzed,
            (Registry.ofOutcomes other).failures.length⟩ := by
          rw [totals, templates, complexity, analyzed, failed]
      _ = report'.summary := rfl
  exact ⟨summary, templates, collections, Registry.mem_keys_perm permuted,
    fun name unique => Registry.get?_dependencies_perm permuted unique⟩

/-- A file with two constructs, another one that declares one of their names again, and a file that
could not be read. -/
def sampleOutcomes : List FileOutcome :=
  let markers : Markers := ⟨true, false, false, true, 2⟩
  [.analyzed ⟨"a.js", 1, ["$http"], markers,
      [(.component, ⟨"card", "a.js", ["$http"], 1, markers⟩),
        (.service, ⟨"shared", "a.js", ["$http"], 1, markers⟩)]⟩,
    .analyzed ⟨"b.js", 120, ["$q", "$log"], markers,
      [(.component, ⟨"shared", "b.js", ["$q", "$log"], 120, markers⟩)]⟩,
    .failed ⟨"c.js", "denied"⟩]

/-- Reversed outcomes give the same summary, and the dependencies of a name with one file. -/
theorem ofOutcomes_in_any_order_reversed :
    let report := ofRegistry {} (Registry.ofOutcomes sampleOutcomes)
    let report' := ofRegistry {} (Registry.ofOutcomes sampleOutcomes.reverse)
    sampleOutcomes.Perm sampleOutcomes.reverse ∧ report.summary = report'.summary ∧
      sampleOutcomes.countP (·.declares "card") = 1 ∧
      report.dependencies.get? "card" = report'.dependencies.get? "card" ∧
      -- Two files declare the other name, and the last of them decides.
      report.dependencies.get? "shared" ≠ report'.dependencies.get? "shared" := by
  -- Reversing is a permutation, and the other facts are computed.
  intro report report'
  have permuted : sampleOutcomes.Perm sampleOutcomes.reverse := (List.reverse_perm _).symm
  have unique : sampleOutcomes.countP (·.declares "card") = 1 := by decide
  obtain ⟨summary, _, _, _, kept⟩ := ofOutcomes_in_any_order permuted {}
  exact ⟨permuted, summary, unique, kept "card" unique, by decide⟩

end Report

end Stocktake
