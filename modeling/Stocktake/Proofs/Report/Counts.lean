import Stocktake.Proofs.Registry.Recording
import Stocktake.Report.Basic
import Stocktake.Scan

/-! The counts of a report are those of its lists, and its names are those of its constructs. -/

namespace Stocktake

/-- The count of a level. -/
def Metrics.get (metrics : Metrics) : Level → Nat
  | .low => metrics.low
  | .medium => metrics.medium
  | .high => metrics.high

/-- Each of the nine pairs of levels computes. -/
private theorem Buckets.get_metrics_push (buckets : Buckets) (level other : Level)
    (construct : Construct) :
    (buckets.push level construct).metrics.get other =
      buckets.metrics.get other + if level = other then 1 else 0 := by
  -- A count is the length of a bucket, and one bucket has grown.
  cases level <;> cases other <;> rfl

/-- The count of a level is the number of constructs that the thresholds put into it. -/
theorem Thresholds.get_metrics (thresholds : Thresholds) (constructs : List Construct)
    (level : Level) :
    (thresholds.metrics constructs).get level =
      constructs.countP fun construct => thresholds.classify construct.loc = level := by
  -- The first construct goes into the bucket of its own level.
  induction constructs with
  | nil => cases level <;> rfl
  | cons construct constructs ih =>
    have step : (thresholds.metrics (construct :: constructs)).get level =
        (thresholds.metrics constructs).get level +
          if thresholds.classify construct.loc = level then 1 else 0 :=
      Buckets.get_metrics_push _ _ _ _
    rw [step, ih, List.countP_cons]
    simp

/-- Every construct counts for a level. -/
theorem Thresholds.total_metrics (thresholds : Thresholds) (constructs : List Construct) :
    (thresholds.metrics constructs).total = constructs.length := by
  -- A construct has one level, so that it counts once.
  have total : (thresholds.metrics constructs).total =
      (thresholds.metrics constructs).get .high + (thresholds.metrics constructs).get .medium +
        (thresholds.metrics constructs).get .low := rfl
  rw [total, get_metrics, get_metrics, get_metrics]
  clear total
  induction constructs with
  | nil => rfl
  | cons construct constructs ih =>
    simp only [List.countP_cons, List.length_cons]
    cases thresholds.classify construct.loc <;> simp <;> omega

namespace Registry

/-- What comes of a file is recorded in one of the ways in which a registry is filled. -/
def recordingOf : FileOutcome → Recording
  | .analyzed analysis => .file analysis
  | .failed failure => .failure failure

/-- The registry of outcomes is filled by recording them. -/
theorem ofOutcomes_eq_ofRecordings (outcomes : List FileOutcome) :
    ofOutcomes outcomes = ofRecordings (outcomes.map recordingOf) := by
  -- Recording an outcome is recording its file or its failure.
  rw [ofOutcomes, ofRecordings, List.foldl_map]
  congr 1
  funext registry outcome
  cases outcome <;> rfl

/-- The number of files that a registry has counted, read or not. -/
def filesCounted (registry : Registry) : Nat :=
  registry.filesAnalyzed + registry.failures.length

/-- Recording what comes of a file counts that file. -/
theorem filesCounted_recordOutcome (registry : Registry) (outcome : FileOutcome) :
    (registry.recordOutcome outcome).filesCounted = registry.filesCounted + 1 := by
  -- A file is counted as analysed or as failed.
  cases outcome with
  | analyzed analysis =>
    simp only [recordOutcome, recordFile, filesCounted]
    omega
  | failed failure =>
    simp only [recordOutcome, recordFailure, filesCounted, List.length_append,
      List.length_singleton]
    omega

/-- The registry of outcomes has counted as many files. -/
theorem filesCounted_ofOutcomes (outcomes : List FileOutcome) :
    (ofOutcomes outcomes).filesCounted = outcomes.length := by
  -- Each outcome is counted once, whatever has been counted before.
  have general : ∀ (outcomes : List FileOutcome) (registry : Registry),
      (outcomes.foldl recordOutcome registry).filesCounted =
        registry.filesCounted + outcomes.length := by
    intro outcomes
    induction outcomes with
    | nil => exact fun registry => rfl
    | cons outcome outcomes ih =>
      intro registry
      rw [List.foldl_cons, ih, filesCounted_recordOutcome, List.length_cons]
      omega
  rw [ofOutcomes, general]
  exact Nat.zero_add _

/-- The names with dependencies are those of the constructs in all collections. -/
theorem Holds.mem_keys_iff {registry : Registry} {recorded : List (Category × Construct)}
    (holds : registry.Holds recorded) (name : String) :
    name ∈ registry.dependencies.keys ↔
      ∃ category, ∃ construct ∈ registry.collection category, construct.name = name := by
  -- A recorded construct stands in the collection of its category.
  rw [holds.mem_keys, recordedNames, List.mem_map]
  constructor
  · rintro ⟨⟨category, construct⟩, member, rfl⟩
    refine ⟨category, construct, ?_, rfl⟩
    rw [holds.collection]
    exact List.mem_map.mpr ⟨_, List.mem_filter.mpr ⟨member, by simp⟩, rfl⟩
  · rintro ⟨category, construct, inside, rfl⟩
    rw [holds.collection] at inside
    obtain ⟨entry, member, rfl⟩ := List.mem_map.mp inside
    exact ⟨entry, (List.mem_filter.mp member).1, rfl⟩

end Registry

/-- The counts of a report are those of its lists, under thresholds, and of a number of files. -/
structure Report.Consistent (report : Report) (thresholds : Thresholds) (files : Nat) : Prop where
  totals : ∀ category,
    report.summary.totals.get category = (report.constructs.get category).length
  levels : ∀ level, report.summary.complexity.get level =
    report.constructs.components.countP fun construct =>
      thresholds.classify construct.loc = level
  allLevels : report.summary.complexity.high + report.summary.complexity.medium +
    report.summary.complexity.low = report.constructs.components.length
  templates : report.summary.templates = report.templates
  files : report.summary.filesAnalyzed + report.summary.filesFailed = files
  names : ∀ name, name ∈ report.dependencies.keys ↔
    ∃ category, ∃ construct ∈ report.constructs.get category, construct.name = name
  distinct : report.dependencies.keys.Nodup

/-- The report of a scan is consistent with the files of the scan. -/
theorem Report.consistent_ofRegistry (thresholds : Thresholds) (root : String)
    (read : SourceReader) (paths : List String) :
    (Report.ofRegistry thresholds (Registry.ofFiles root read paths)).Consistent thresholds
      paths.length := by
  -- The registry has recorded the outcome of each file.
  have holds := Registry.holds_ofRecordings
    ((paths.map (FileOutcome.ofPath root read)).map Registry.recordingOf)
  rw [← Registry.ofOutcomes_eq_ofRecordings] at holds
  have counted := Registry.filesCounted_ofOutcomes (paths.map (FileOutcome.ofPath root read))
  rw [List.length_map] at counted
  exact {
    totals := ByCategory.get_map _ _
    levels := thresholds.get_metrics _
    allLevels := thresholds.total_metrics _
    templates := rfl
    files := counted
    names := holds.mem_keys_iff
    distinct := OrderedMap.distinct _ }

end Stocktake
