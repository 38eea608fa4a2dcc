import Mathlib.Data.List.Forall2
import Stocktake.Proofs.Report.Counts

/-! A file that cannot be read shows among the failures of a scan, and in nothing else. -/

namespace Stocktake

namespace FileOutcome

/-- The analysis that comes of a file, if it could be read. -/
def analysis? : FileOutcome → Option Analysis
  | .analyzed analysis => some analysis
  | .failed _ => none

/-- The failure that comes of a file, if it could not be read. -/
def failure? : FileOutcome → Option Failure
  | .analyzed _ => none
  | .failed failure => some failure

end FileOutcome

/-- A reader gives a text for a path. -/
def isReadable (read : SourceReader) (path : String) : Bool :=
  match read path with
  | .ok _ => true
  | .error _ => false

/-- A failure tells of a path below a root, with the fault that reading the path ends in. -/
def TellsOf (root : String) (read : SourceReader) (path : String) (failure : Failure) : Prop :=
  ∃ cause, read path = .error cause ∧
    failure = ⟨Path.relative root path, cause.message path⟩

namespace Registry

/-- A registry with other failures. -/
def withFailures (registry : Registry) (failures : List Failure) : Registry :=
  { registry with failures }

/-- Files are recorded alike whatever has failed before. -/
theorem foldl_recordFile_withFailures (analyses : List Analysis) (registry : Registry)
    (failures : List Failure) :
    analyses.foldl recordFile (registry.withFailures failures) =
      (analyses.foldl recordFile registry).withFailures failures := by
  -- Recording a file reads nothing of the failures and changes none.
  induction analyses generalizing registry with
  | nil => rfl
  | cons analysis analyses ih =>
    have step : (registry.withFailures failures).recordFile analysis =
        (registry.recordFile analysis).withFailures failures := rfl
    rw [List.foldl_cons, List.foldl_cons, step, ih]

/-- Outcomes are recorded as their analyses are, with their failures behind the earlier ones. -/
theorem foldl_recordOutcome (outcomes : List FileOutcome) (registry : Registry) :
    outcomes.foldl recordOutcome registry =
      ((outcomes.filterMap FileOutcome.analysis?).foldl recordFile registry).withFailures
        (registry.failures ++ outcomes.filterMap FileOutcome.failure?) := by
  induction outcomes generalizing registry with
  | nil =>
    rw [List.filterMap_nil, List.filterMap_nil, List.append_nil]
    rfl
  | cons outcome outcomes ih =>
    rw [List.foldl_cons, ih]
    cases outcome with
    | analyzed analysis =>
      -- Recording an analysis keeps the failures.
      rfl
    | failed failure =>
      have step : registry.recordOutcome (.failed failure) =
          registry.withFailures (registry.failures ++ [failure]) := rfl
      have later : registry.failures ++
            (FileOutcome.failed failure :: outcomes).filterMap FileOutcome.failure? =
          registry.failures ++ [failure] ++ outcomes.filterMap FileOutcome.failure? := by
        rw [List.append_assoc]
        rfl
      rw [step, foldl_recordFile_withFailures, later]
      rfl

variable (root : String) (read : SourceReader) (paths : List String)

/-- The registry of files has recorded those that could be read, and lists those that could not. -/
theorem ofFiles_eq_withFailures :
    ofFiles root read paths =
      (ofFiles root read (paths.filter (isReadable read))).withFailures
        ((paths.map (FileOutcome.ofPath root read)).filterMap FileOutcome.failure?) := by
  -- Both registries have recorded the same analyses in the same order.
  have same : ((paths.filter (isReadable read)).map (FileOutcome.ofPath root read)).filterMap
        FileOutcome.analysis? =
      (paths.map (FileOutcome.ofPath root read)).filterMap FileOutcome.analysis? := by
    rw [List.filterMap_map, List.filterMap_map, List.filterMap_filter]
    congr 1
    funext path
    cases found : read path <;> simp [FileOutcome.ofPath, FileOutcome.analysis?, isReadable, found]
  rw [ofFiles, ofFiles, ofOutcomes, ofOutcomes, foldl_recordOutcome, foldl_recordOutcome, same]
  rfl

/-- Each file that could not be read has one failure, in the order of the files. -/
theorem forall₂_tellsOf :
    List.Forall₂ (TellsOf root read) (paths.filter (!isReadable read ·))
      ((paths.map (FileOutcome.ofPath root read)).filterMap FileOutcome.failure?) := by
  -- Each path gives one outcome, which is a failure when the path cannot be read.
  induction paths with
  | nil => exact .nil
  | cons path paths ih =>
    cases found : read path with
    | ok content =>
      have passed : FileOutcome.failure? (FileOutcome.ofPath root read path) = none := by
        rw [FileOutcome.ofPath, found]
        rfl
      rw [List.filter_cons, List.map_cons, List.filterMap_cons_none passed]
      simpa [isReadable, found] using ih
    | error cause =>
      have told : FileOutcome.failure? (FileOutcome.ofPath root read path) =
          some ⟨Path.relative root path, cause.message path⟩ := by
        rw [FileOutcome.ofPath, found]
        rfl
      rw [List.filter_cons, List.map_cons, List.filterMap_cons_some told]
      simpa [isReadable, found] using List.Forall₂.cons ⟨cause, found, rfl⟩ ih

/-- A scan fails only when its files cannot be listed, whatever reading them ends in. -/
theorem scan_eq_map (workspace : Workspace) (settings : ScanSettings) :
    workspace.scan settings read root =
      (workspace.sourceFiles settings root).map (ofFiles root read) := by
  -- The walk is all of a scan that can fail.
  rw [Workspace.scan]
  cases workspace.sourceFiles settings root <;> rfl

/-- The registry of files is that of the readable ones among them but for its failures: these tell
of the other files, one by one and in order. It counts every file, and a scan gives it whenever the
files can be listed. -/
theorem ofFiles_skips_unreadable (root : String) (read : SourceReader) (paths : List String) :
    let registry := ofFiles root read paths
    let readable := ofFiles root read (paths.filter (isReadable read))
    (∀ category, registry.collection category = readable.collection category) ∧
    registry.dependencies = readable.dependencies ∧
    registry.templates = readable.templates ∧
    registry.filesAnalyzed = readable.filesAnalyzed ∧
    List.Forall₂ (TellsOf root read) (paths.filter (!isReadable read ·)) registry.failures ∧
    registry.filesAnalyzed + registry.failures.length = paths.length ∧
    ∀ (workspace : Workspace) (settings : ScanSettings),
      workspace.scan settings read root =
        (workspace.sourceFiles settings root).map (ofFiles root read) := by
  -- All outcomes but the failures are those of the readable files, in the same order.
  intro registry readable
  have split : registry = readable.withFailures
      ((paths.map (FileOutcome.ofPath root read)).filterMap FileOutcome.failure?) :=
    ofFiles_eq_withFailures root read paths
  -- Every path has an outcome, which is counted as a file or as a failure.
  have counted : registry.filesAnalyzed + registry.failures.length = paths.length := by
    have outcomes := filesCounted_ofOutcomes (paths.map (FileOutcome.ofPath root read))
    rwa [List.length_map] at outcomes
  rw [split] at counted ⊢
  exact ⟨fun _ => rfl, rfl, rfl, rfl, forall₂_tellsOf root read paths, counted,
    scan_eq_map root read⟩

end Registry

end Stocktake
