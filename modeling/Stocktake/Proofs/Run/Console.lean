import Stocktake.Proofs.Report.Sink
import Stocktake.Proofs.Run.Stages
import Stocktake.Report.ConsoleText

/-! A console hears of a run as much as it takes, and never changes what the run does. -/

namespace Stocktake

namespace RunRequest

variable (request : RunRequest)

/-- All that a run with a given result tells, unless it is quiet. -/
def transcript : Except Fault RunOutcome → List String
  | .error (.configuration _) => []
  | .error _ => [runBanner]
  | .ok outcome => runBanner :: request.closingParts outcome

/-- The transcript of a finished run has the report of its summary and order between two lines. -/
theorem join_transcript (outcome : RunOutcome) :
    String.join (request.transcript (.ok outcome)) =
      "Starting component analysis...\n" ++
        request.style.text outcome.report.summary outcome.order ++
        "\nAnalysis complete! Results saved to: " ++ outcome.outputPath ++ "\n" := by
  have framed : ∀ (first last : String) (parts : List String),
      String.join (first :: (parts ++ [last])) = first ++ String.join parts ++ last := by
    intro first last parts
    apply String.toList_inj.mp
    simp [String.toList_join]
  have banner : runBanner = "Starting component analysis...\n" := rfl
  have closing : runClosing outcome.outputPath =
      "\nAnalysis complete! Results saved to: " ++ outcome.outputPath ++ "\n" := rfl
  -- The last line is told as one part.
  rw [transcript, closingParts, framed, ← Style.text, ← banner, closing, ← String.append_assoc,
    ← String.append_assoc]

/-- Telling nothing leaves a console as it is. -/
theorem tell_nil (console : Sink) : request.tell console [] = console := by
  -- There is nothing to write, whether the run is quiet or not.
  rw [tell, Sink.writeAll]
  exact ite_self console

/-- What is told later comes behind what was told before, even when that did not go in whole. -/
theorem tell_tell (console : Sink) (first second : List String) :
    request.tell (request.tell console first) second = request.tell console (first ++ second) := by
  -- A quiet run tells nothing either time, and any other sink joins what it is given.
  cases quiet : request.quiet with
  | true => simp only [tell, quiet, if_true]
  | false =>
    simp only [tell, quiet, Bool.false_eq_true, if_false]
    exact console.writeAll_writeAll first second

end RunRequest

namespace Workspace

variable (workspace : Workspace) (access : Access) (request : RunRequest) (console : Sink)

/-- A run that has settings but no outcome has told its banner only. -/
theorem transcript_of_evaluate {workspace : Workspace} {access : Access} {request : RunRequest}
    {settings : Settings} {fault : Fault}
    (failed : workspace.evaluate access settings request = .error fault) :
    request.transcript (.error fault) = [runBanner] := by
  -- Of all faults only those of settings come before the banner.
  obtain ⟨flaw, rfl⟩ | ⟨cause, rfl⟩ | ⟨step, rfl⟩ := evaluate_eq_error failed <;> rfl

/-- A console is told the transcript of the result, whatever stage the run stops at. -/
theorem console_analyze :
    (workspace.analyze access request console).console =
      request.tell console
        (request.transcript (workspace.analyze access request console).result) := by
  -- Each stage that a run can stop at has told what the transcript of its result says.
  have ends := workspace.endsAs_analyze access request console
  generalize workspace.analyze access request console = finish at ends ⊢
  cases ends with
  | unsettled refused => exact (request.tell_nil console).symm
  | unevaluated chosen failed => rw [transcript_of_evaluate failed]
  | unwritten chosen evaluated failed => rfl
  | finished chosen evaluated stored => exact request.tell_tell console _ _

/-- Neither the look of the console output nor the console changes what a run does. -/
theorem analyze_restyled (style : Style) (quiet : Bool) (other : Sink) :
    (workspace.analyze access { request with style, quiet } other).result =
        (workspace.analyze access request console).result ∧
      (workspace.analyze access { request with style, quiet } other).workspace =
        (workspace.analyze access request console).workspace := by
  -- Settings and evaluation look at the other parts of a request only.
  have settings : workspace.runSettings { request with style, quiet } =
      workspace.runSettings request := rfl
  have evaluation : ∀ chosen, workspace.evaluate access chosen { request with style, quiet } =
      workspace.evaluate access chosen request := fun _ => rfl
  rw [analyze, analyze, settings]
  cases workspace.runSettings request with
  | error fault => exact ⟨rfl, rfl⟩
  | ok chosen =>
    dsimp only
    rw [evaluation]
    cases workspace.evaluate access chosen request with
    | error fault => exact ⟨rfl, rfl⟩
    | ok outcome =>
      dsimp only
      -- What is told afterwards is told to the console alone.
      cases workspace.writeArtifact access outcome with
      | mk result left => cases result <;> exact ⟨rfl, rfl⟩

/-- A finished run tells a banner, the report of its summary and of its order, and a line that names
its artifact. -/
theorem received_of_finished {outcome : RunOutcome}
    (finished : (workspace.analyze access request console).result = .ok outcome) :
    (workspace.analyze access { request with quiet := false } (.fresh none)).console.received =
      utf8Encode ("Starting component analysis...\n" ++
        request.style.text outcome.report.summary outcome.order ++
        "\nAnalysis complete! Results saved to: " ++ outcome.outputPath ++ "\n").toList := by
  have same := (workspace.analyze_restyled access request console request.style false
    (.fresh none)).1.trans finished
  rw [console_analyze, same, RunRequest.tell, if_neg (by simp), Sink.received_writeAll_fresh_none]
  -- What is told is the transcript, one part behind the other.
  exact congrArg (fun text : String => utf8Encode text.toList) (request.join_transcript outcome)

/-- Two runs that differ in the look of their output and in their consoles alone have the same
result and leave the same workspace. A console without limit receives the transcript of a run, one
with a limit the first bytes of it, and a console of a quiet run nothing. -/
theorem analyze_console_passive :
    (∀ (style : Style) (quiet : Bool) (other : Sink),
      (workspace.analyze access { request with style, quiet } other).result =
          (workspace.analyze access request console).result ∧
        (workspace.analyze access { request with style, quiet } other).workspace =
          (workspace.analyze access request console).workspace) ∧
    (workspace.analyze access { request with quiet := false } (.fresh none)).console.received =
      utf8Encode (String.join
        (request.transcript (workspace.analyze access request console).result)).toList ∧
    (∀ limit : Nat,
      (workspace.analyze access request (.fresh (some limit))).console.received =
        (workspace.analyze access request (.fresh none)).console.received.take limit) ∧
    (workspace.analyze access { request with quiet := true } console).console = console := by
  have same := workspace.analyze_restyled access request
  refine ⟨same console, ?_, fun limit => ?_, ?_⟩
  · -- A console without limit takes in all that it is told.
    rw [console_analyze, (same console request.style false (.fresh none)).1]
    exact Sink.received_writeAll_fresh_none _
  · -- Both runs have the same result, and so the same transcript.
    rw [console_analyze, console_analyze,
      (same (.fresh none) request.style request.quiet (.fresh (some limit))).1]
    cases quiet : request.quiet with
    | true => simp [RunRequest.tell, quiet, Sink.fresh]
    | false =>
      simp only [RunRequest.tell, quiet, Bool.false_eq_true, if_false]
      exact Sink.received_writeAll_fresh_some limit _
  · rw [console_analyze]
    rfl

end Workspace

end Stocktake
