import Stocktake.Run

/-! A run stops at one of four stages, and the stage decides on everything that it leaves. -/

namespace Stocktake

/-- A failure with another fault is one with the fault that it was made of. -/
theorem mapError_eq_error {ε ε' α : Type} {change : ε → ε'} {result : Except ε α} {fault : ε'}
    (failed : result.mapError change = .error fault) :
    ∃ cause, result = .error cause ∧ fault = change cause := by
  -- Only a failure is changed into one.
  cases result with
  | error cause => exact ⟨cause, rfl, (Except.error.inj failed).symm⟩
  | ok value => cases failed

namespace Workspace

variable {workspace : Workspace} {access : Access} {request : RunRequest} {settings : Settings}

/-- Files cannot be listed because of a malformed pattern, or of a root that is not there. -/
theorem sourceFiles_eq_error {scan : ScanSettings} {root : String} {fault : Fault}
    (failed : workspace.sourceFiles scan root = .error fault) :
    (∃ flaw, fault = .pattern flaw) ∨ ∃ cause, fault = .walk root cause := by
  -- Patterns are read first, so that a walk needs all of them well formed.
  rw [sourceFiles] at failed
  cases read : (WalkRules.ofSettings scan).mapError Fault.pattern with
  | error refused =>
    obtain ⟨flaw, -, rfl⟩ := mapError_eq_error read
    rw [read] at failed
    exact .inl ⟨flaw, (Except.error.inj failed).symm⟩
  | ok rules =>
    rw [read] at failed
    obtain ⟨cause, -, rfl⟩ := mapError_eq_error failed
    exact .inr ⟨cause, rfl⟩

/-- A run has no outcome when its files cannot be listed, or when a score outgrows its bits. -/
theorem evaluate_eq_error_iff {fault : Fault} :
    workspace.evaluate access settings request = .error fault ↔
      workspace.sourceFiles settings.scan request.root = .error fault ∨
        ∃ files step, workspace.sourceFiles settings.scan request.root = .ok files ∧
          migrationOrder settings.dependencyWeight
            (Registry.ofFiles request.root (access.read workspace) files).dependencies
            ((Registry.ofFiles request.root (access.read workspace) files).collection
              .component) = .error step ∧
          fault = .overflow step := by
  -- The report keeps the dependencies and the components of the registry that it is made of.
  rw [evaluate, scan]
  cases listed : workspace.sourceFiles settings.scan request.root with
  | error cause => simp [bind, Except.bind]
  | ok files =>
    have kept : ∀ thresholds registry,
        (Report.ofRegistry thresholds registry).dependencies = registry.dependencies ∧
          (Report.ofRegistry thresholds registry).constructs.components =
            registry.collection .component := fun _ _ => ⟨rfl, rfl⟩
    simp only [bind, Except.bind, pure, Except.pure, kept]
    cases ordered : migrationOrder settings.dependencyWeight
        (Registry.ofFiles request.root (access.read workspace) files).dependencies
        ((Registry.ofFiles request.root (access.read workspace) files).collection .component) with
    | error step =>
      constructor
      · intro failed
        exact .inr ⟨files, step, rfl, ordered, (Except.error.inj failed).symm⟩
      · rintro (listed' | ⟨_, _, same, found, rfl⟩)
        · cases listed'
        · rw [← Except.ok.inj same, ordered] at found
          rw [← Except.error.inj found]
          rfl
    | ok order =>
      constructor
      · intro failed
        cases failed
      · rintro (listed' | ⟨_, _, same, found, -⟩)
        · cases listed'
        · rw [← Except.ok.inj same, ordered] at found
          cases found

/-- A run without an outcome has met a malformed pattern, a root that is not there, or a score that
outgrows its bits. -/
theorem evaluate_eq_error {fault : Fault}
    (failed : workspace.evaluate access settings request = .error fault) :
    (∃ flaw, fault = .pattern flaw) ∨ (∃ cause, fault = .walk request.root cause) ∨
      ∃ step, fault = .overflow step := by
  -- An evaluation fails in listing the files, or else in ranking the components.
  obtain unlisted | ⟨_, step, _, _, same⟩ := evaluate_eq_error_iff.mp failed
  · obtain malformed | absent := sourceFiles_eq_error unlisted
    · exact .inl malformed
    · exact .inr (.inl absent)
  · exact .inr (.inr ⟨step, same⟩)

/-- Settings are refused only for what stands in the file that a request names. -/
theorem runSettings_eq_error {fault : Fault}
    (refused : workspace.runSettings request = .error fault) :
    ∃ cause, fault = .configuration cause := by
  -- Settings that are looked for may be missing, so only a file that is named can be refused.
  rw [runSettings] at refused
  split at refused
  · rename_i path _
    obtain ⟨cause, -, rfl⟩ := mapError_eq_error refused
    exact ⟨cause, rfl⟩
  · cases refused

/-- The ways in which a run can end. -/
inductive EndsAs (workspace : Workspace) (access : Access) (request : RunRequest)
    (console : Sink) : RunEnd → Prop
  /-- There are no settings to work with, and nothing has happened yet. -/
  | unsettled {cause : ConfigurationFault}
      (refused : workspace.runSettings request = .error (.configuration cause)) :
      EndsAs workspace access request console
        ⟨.error (.configuration cause), workspace, console⟩
  /-- There is no outcome, and nothing but the banner has been told. -/
  | unevaluated {settings : Settings} {fault : Fault}
      (chosen : workspace.runSettings request = .ok settings)
      (failed : workspace.evaluate access settings request = .error fault) :
      EndsAs workspace access request console
        ⟨.error fault, workspace, request.tell console [runBanner]⟩
  /-- The artifact is not written; what is left is up to the way of writing. -/
  | unwritten {settings : Settings} {outcome : RunOutcome} {cause : SystemFault}
      {left : Workspace} (chosen : workspace.runSettings request = .ok settings)
      (evaluated : workspace.evaluate access settings request = .ok outcome)
      (failed : access.write workspace outcome.outputPath
        (utf8Encode outcome.report.render.toList) = (.error cause, left)) :
      EndsAs workspace access request console
        ⟨.error (.artifactWrite outcome.outputPath cause), left,
          request.tell console [runBanner]⟩
  /-- The artifact is written and everything has been told. -/
  | finished {settings : Settings} {outcome : RunOutcome} {written : Workspace}
      (chosen : workspace.runSettings request = .ok settings)
      (evaluated : workspace.evaluate access settings request = .ok outcome)
      (stored : access.write workspace outcome.outputPath
        (utf8Encode outcome.report.render.toList) = (.ok (), written)) :
      EndsAs workspace access request console
        ⟨.ok outcome, written,
          request.tell (request.tell console [runBanner]) (request.closingParts outcome)⟩

/-- Every run ends in one of these ways. -/
theorem endsAs_analyze (workspace : Workspace) (access : Access) (request : RunRequest)
    (console : Sink) :
    workspace.EndsAs access request console (workspace.analyze access request console) := by
  -- The stages of a run one after another; each of them can be the last.
  rw [analyze]
  cases chosen : workspace.runSettings request with
  | error fault =>
    obtain ⟨cause, rfl⟩ := runSettings_eq_error chosen
    exact .unsettled chosen
  | ok settings =>
    dsimp only
    cases evaluated : workspace.evaluate access settings request with
    | error fault => exact .unevaluated chosen evaluated
    | ok outcome =>
      dsimp only [writeArtifact]
      cases stored : access.write workspace outcome.outputPath
          (utf8Encode outcome.report.render.toList) with
      | mk result left =>
        cases result with
        | error cause => exact .unwritten chosen evaluated stored
        | ok _ => exact .finished chosen evaluated stored

end Workspace

end Stocktake
