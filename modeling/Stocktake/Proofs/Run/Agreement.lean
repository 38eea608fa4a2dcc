import Stocktake.Proofs.FileTree.Replace
import Stocktake.Proofs.Report.Artifact
import Stocktake.Proofs.Report.Counts
import Stocktake.Proofs.Text.Utf8
import Stocktake.Run

/-! The artifact of a finished run decodes to its report, which agrees with the run's settings. -/

namespace Stocktake

/-- The bytes of an artifact are a text from which the report is read back. -/
theorem Report.decode_artifact {report : Report} (fits : report.Fits) :
    ∃ text, utf8Decode? (utf8Encode report.render.toList) = some text ∧
      Report.parse? (String.ofList text) = some report := by
  -- UTF-8 loses nothing of the text, and the text nothing of the report.
  refine ⟨report.render.toList, utf8Decode?_utf8Encode _, ?_⟩
  rw [String.ofList_toList, parse?, render, Json.parse?_render report.plain_toJson,
    Option.bind_eq_bind, Option.bind_some, ofJson?_toJson fits]

namespace Workspace

variable {workspace written : Workspace} {access : Access} {request : RunRequest}
  {settings : Settings} {outcome : RunOutcome} {console : Sink}

/-- The outcome of a run has the report of its files, and the order that this report gives. -/
theorem evaluate_eq_ok (done : workspace.evaluate access settings request = .ok outcome) :
    ∃ files, workspace.sourceFiles settings.scan request.root = .ok files ∧
      outcome.report = Report.ofRegistry settings.thresholds
        (Registry.ofFiles request.root (access.read workspace) files) ∧
      migrationOrder settings.dependencyWeight outcome.report.dependencies
        outcome.report.constructs.components = .ok outcome.order ∧
      outcome.outputPath = request.output.getD settings.outputPath := by
  -- A fault of the scan or of the ranking would have ended the evaluation.
  rw [evaluate, scan] at done
  cases listed : workspace.sourceFiles settings.scan request.root with
  | error fault => simp [listed, bind, Except.bind] at done
  | ok files =>
    simp only [listed, bind, Except.bind, pure, Except.pure] at done
    refine ⟨files, rfl, ?_⟩
    split at done
    · simp at done
    · rename_i order ordered
      obtain rfl := Except.ok.inj done
      refine ⟨rfl, ?_, rfl⟩
      dsimp only
      cases ranked : migrationOrder settings.dependencyWeight
        (Report.ofRegistry settings.thresholds
          (Registry.ofFiles request.root (access.read workspace) files)).dependencies
        (Report.ofRegistry settings.thresholds
          (Registry.ofFiles request.root (access.read workspace) files)).constructs.components with
      | error overflow =>
        rw [ranked] at ordered
        cases ordered
      | ok found =>
        rw [ranked] at ordered
        exact congrArg Except.ok (Except.ok.inj ordered)

/-- A finished artifact has been written as the bytes of its text. -/
theorem writeArtifact_eq_ok
    (done : workspace.writeArtifact access outcome = (.ok (), written)) :
    access.write workspace outcome.outputPath (utf8Encode outcome.report.render.toList) =
      (.ok (), written) := by
  -- Only a finished write is reported as one.
  rw [writeArtifact] at done
  split at done
  · rename_i there same
    rw [same, (Prod.mk.inj done).2]
  · simp at done

/-- A finished run has settings, an outcome for them, and has written its artifact. -/
theorem analyze_eq_ok
    (finished : (workspace.analyze access request console).result = .ok outcome) :
    ∃ settings, workspace.runSettings request = .ok settings ∧
      workspace.evaluate access settings request = .ok outcome ∧
      workspace.writeArtifact access outcome =
        (.ok (), (workspace.analyze access request console).workspace) := by
  -- Each part of a run hands over its fault, so that none of them has failed.
  rw [analyze] at finished ⊢
  cases chosen : workspace.runSettings request with
  | error fault => simp [chosen] at finished
  | ok settings =>
    refine ⟨settings, rfl, ?_⟩
    rw [chosen] at finished
    dsimp only at finished ⊢
    cases evaluated : workspace.evaluate access settings request with
    | error fault => simp [evaluated] at finished
    | ok found =>
      rw [evaluated] at finished
      dsimp only at finished ⊢
      cases stored : workspace.writeArtifact access found with
      | mk outcome' left =>
        rw [stored] at finished
        cases outcome' with
        | error fault => simp at finished
        | ok _ =>
          obtain rfl : found = outcome := Except.ok.inj finished
          exact ⟨rfl, stored⟩

/-- The artifact of a finished run decodes to the report of the run, whose counts, names and order
are those of its lists and of the settings; it stands where the output path of the run leads.
That the report fits says no more than that its counters are the words that they are. -/
theorem analyze_artifact_agrees
    (finished : (workspace.analyze access request console).result = .ok outcome)
    (fits : outcome.report.Fits) :
    ∃ settings files artifact text decoded,
      workspace.runSettings request = .ok settings ∧
      workspace.sourceFiles settings.scan request.root = .ok files ∧
      outcome.outputPath = request.output.getD settings.outputPath ∧
      access.write workspace outcome.outputPath artifact =
        (.ok (), (workspace.analyze access request console).workspace) ∧
      utf8Decode? artifact = some text ∧
      Report.parse? (String.ofList text) = some decoded ∧ decoded = outcome.report ∧
      decoded.Consistent settings.thresholds files.length ∧
      migrationOrder settings.dependencyWeight decoded.dependencies
        decoded.constructs.components = .ok outcome.order ∧
      (access.write = Workspace.replace →
        ∃ ready name home, workspace.prepare outcome.outputPath = (.ok (), ready) ∧
          ready.PutsAt outcome.outputPath name home ∧
          (workspace.analyze access request console).workspace.tree.get? (name :: home) =
            some (.file artifact) ∧
          ((∀ target, ready.tree.get? (name :: home) ≠ some (.link target)) →
            (workspace.analyze access request console).workspace.readText outcome.outputPath =
              .ok (String.ofList text))) := by
  -- Take the run apart: its settings, its evaluation, and the write of the artifact.
  obtain ⟨settings, chosen, evaluated, stored⟩ := analyze_eq_ok finished
  obtain ⟨files, listed, reported, ordered, path⟩ := evaluate_eq_ok evaluated
  have wrote := writeArtifact_eq_ok stored
  obtain ⟨text, bytes, parsed⟩ := Report.decode_artifact fits
  have consistent : outcome.report.Consistent settings.thresholds files.length := by
    rw [reported]
    exact Report.consistent_ofRegistry _ _ _ _
  refine ⟨settings, files, _, text, outcome.report, chosen, listed, path, wrote, bytes, parsed,
    rfl, consistent, ordered, fun direct => ?_⟩
  rw [direct] at wrote
  obtain ⟨ready, name, home, prepared, puts, shown, back⟩ := replace_spec wrote
  refine ⟨ready, name, home, prepared, puts, by rw [shown, if_pos rfl], fun solid => ?_⟩
  rw [readText, back solid]
  simp only [bind, Except.bind, bytes]
  rfl

/-- The start of the sample can be the name of an entry. -/
private theorem isEntryName_home : IsEntryName "app" := by
  -- The name is a fixed text.
  decide

/-- A workspace with a script that registers one component. -/
def withComponent : Workspace where
  tree := (FileTree.empty.put ⟨"app", isEntryName_home⟩ [] .directory).put ⟨"card.js", by decide⟩
    [⟨"app", isEntryName_home⟩] (.file (utf8Encode "a.component('card', {})".toList))
  here := []

/-- The component of that script. -/
def cardComponent : Construct where
  name := "card"
  path := "card.js"
  dependencies := []
  loc := 1
  markers := ⟨false, false, false, false, 0⟩

/-- The report of that workspace. -/
def cardReport : Report where
  summary := ⟨⟨1, 0, 0, 0, 0⟩, ⟨0, 0, 0, 0⟩, ⟨0, 0, 1⟩, 1, 0⟩
  constructs := ⟨[cardComponent], [], [], [], []⟩
  dependencies := ⟨[("card", [])], by decide⟩
  templates := ⟨0, 0, 0, 0⟩

/-- A result that has a report has an outcome with that report. -/
theorem exists_outcome {result : Except Fault RunOutcome} {report : Report}
    (found : result.toOption.map RunOutcome.report = some report) :
    ∃ outcome, result = .ok outcome ∧ outcome.report = report := by
  -- A failed run has no report at all.
  cases result with
  | error fault => simp [Except.toOption] at found
  | ok outcome => exact ⟨outcome, rfl, Option.some.inj found⟩

/-- For a single component the artifact reads back as its report. -/
theorem analyze_artifact_agrees_card : ∃ outcome artifact text,
    (withComponent.analyze .direct {} (.fresh none)).result = .ok outcome ∧
      outcome.report.Fits ∧ utf8Decode? artifact = some text ∧
      Report.parse? (String.ofList text) = some cardReport ∧
      withComponent.replace outcome.outputPath artifact =
        (.ok (), (withComponent.analyze .direct {} (.fresh none)).workspace) := by
  -- The whole run is computed; its counters are small.
  have computed : (withComponent.analyze .direct {} (.fresh none)).result.toOption.map
      RunOutcome.report = some cardReport := by decide +kernel
  obtain ⟨outcome, finished, reported⟩ := exists_outcome computed
  have fits : outcome.report.Fits := by
    rw [reported]
    exact {
      summary := {
        totals := fun category => by cases category <;> decide
        templates := ⟨by decide, by decide, by decide, by decide⟩
        complexity := ⟨by decide, by decide, by decide⟩
        filesAnalyzed := by decide
        filesFailed := by decide }
      constructs := fun category construct member => by
        cases category <;> simp [cardReport, ByCategory.get] at member
        rw [member]
        exact ⟨by decide, by decide⟩
      templates := ⟨by decide, by decide, by decide, by decide⟩ }
  obtain ⟨_, _, artifact, text, decoded, _, _, _, wrote, bytes, parsed, same, _⟩ :=
    analyze_artifact_agrees finished fits
  refine ⟨outcome, artifact, text, finished, fits, bytes, ?_, wrote⟩
  rw [parsed, same, reported]

end Workspace

end Stocktake
