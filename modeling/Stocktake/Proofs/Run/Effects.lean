import Stocktake.Proofs.FileTree.Staging
import Stocktake.Proofs.Run.Stages

/-! A run that fails leaves all files as they are, and one that succeeds changes its artifact. -/

namespace Stocktake

namespace Workspace

/-- From one workspace to another a file has been put to the end of a path, in a directory that was
made with those above it as needed. -/
structure Replaces (before after : Workspace) (path : String) (content : Bytes) : Prop where
  here : after.here = before.here
  tree : ∃ ready name home, before.Grows ready (parentsOf path) ∧ ready.PutsAt path name home ∧
    ready.tree.get? (name :: home) ≠ some .directory ∧
    ∀ place, after.tree.get? place =
      if place = name :: home then some (.file content) else ready.tree.get? place

/-- A write that succeeds replaces the entry at the end of its path. -/
theorem replaces_of_perform_eq_ok {mode : WriteMode} {workspace written : Workspace}
    {path : String} {content : Bytes}
    (done : mode.perform workspace path content = (.ok (), written)) :
    workspace.Replaces written path content := by
  obtain ⟨ready, prepared, installed⟩ := WriteMode.perform_eq_ok done
  have grows : workspace.Grows ready (parentsOf path) := by
    simpa [prepared] using workspace.grows_prepare path
  obtain ⟨name, home, puts, free, rfl⟩ := install_eq_ok installed
  have fits : ready.tree.Fits name home := ⟨directory_of_homeOf puts.1, free⟩
  -- The file is all that the workspace differs in from the one with its directories made.
  have shown : ∀ place, (ready.tree.put name home (.file content)).get? place =
      if place = name :: home then some (.file content) else ready.tree.get? place :=
    FileTree.get?_put fits
  exact { here := grows.here, tree := ⟨ready, name, home, grows, puts, free, shown⟩ }

/-- However the artifact is written, a run that cannot write it loses nothing and makes nothing but
directories that the artifact needs; any other failure changes nothing at all; and a run that
succeeds replaces its artifact by the whole report. -/
theorem analyze_effects (workspace : Workspace) (read : Workspace → SourceReader)
    (mode : WriteMode) (request : RunRequest) (console : Sink) :
    let finish := workspace.analyze ⟨read, mode.perform⟩ request console
    match finish.result with
    | .error (.artifactWrite path _) => workspace.Grows finish.workspace (parentsOf path)
    | .error _ => finish.workspace = workspace
    | .ok outcome => workspace.Replaces finish.workspace outcome.outputPath
        (utf8Encode outcome.report.render.toList) := by
  intro finish
  have ends : workspace.EndsAs ⟨read, mode.perform⟩ request console finish :=
    workspace.endsAs_analyze ⟨read, mode.perform⟩ request console
  clear_value finish
  cases ends with
  | unsettled refused => rfl
  | unevaluated chosen failed =>
    -- Nothing is written before there is an outcome, and so the fault is none of writing.
    obtain ⟨flaw, rfl⟩ | ⟨cause, rfl⟩ | ⟨step, rfl⟩ := evaluate_eq_error failed <;> rfl
  | unwritten chosen evaluated failed => exact WriteMode.grows_of_perform_eq_error failed
  | finished chosen evaluated stored => exact replaces_of_perform_eq_ok stored

/-- A run with direct access writes its artifact in one of these ways. -/
example : Access.direct = ⟨Workspace.reader, WriteMode.whole.perform⟩ := rfl

end Workspace

end Stocktake
