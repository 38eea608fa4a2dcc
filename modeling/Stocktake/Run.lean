import Stocktake.FileTree.Change
import Stocktake.Report.Console
import Stocktake.Scan
import Stocktake.Settings.Discovery

/-! A run scans a source tree, writes the report, and tells about it on a console. -/

namespace Stocktake

/-- What a run is asked to do. -/
structure RunRequest where
  root : String := "app"
  /-- Where the report goes, if not where the settings say. -/
  output : Option String := none
  /-- The settings file, if it is not to be searched for. -/
  settingsFile : Option String := none
  style : Style := {}
  quiet : Bool := false
  deriving DecidableEq, Repr

/-- How a run reads source files and replaces its artifact. -/
structure Access where
  read : Workspace → SourceReader
  write : Workspace → String → Bytes → Except SystemFault Unit × Workspace

/-- Reads and writes what is in the workspace. -/
def Access.direct : Access :=
  ⟨Workspace.reader, Workspace.replace⟩

/-- What a finished run has produced. -/
structure RunOutcome where
  report : Report
  /-- The names of the components in the order in which to migrate them. -/
  order : List String
  outputPath : String
  deriving DecidableEq

/-- How a run ends, and the workspace and the console that it leaves. -/
structure RunEnd where
  result : Except Fault RunOutcome
  workspace : Workspace
  console : Sink

/-- The line that opens the console output of a run. -/
def runBanner : String :=
  "Starting component analysis...\n"

/-- The line that closes the console output of a run. -/
def runClosing (outputPath : String) : String :=
  "\nAnalysis complete! Results saved to: " ++ outputPath ++ "\n"

namespace Workspace

/-- The settings of a run: those of the file it names, or the nearest ones. -/
def runSettings (workspace : Workspace) (request : RunRequest) : Except Fault Settings :=
  match request.settingsFile with
  | some path => (workspace.settingsIn path).mapError .configuration
  | none => .ok workspace.discoverSettings

/-- The outcome of a run that is still to be written. -/
def evaluate (workspace : Workspace) (access : Access) (settings : Settings)
    (request : RunRequest) : Except Fault RunOutcome := do
  let registry ← workspace.scan settings.scan (access.read workspace) request.root
  let report := Report.ofRegistry settings.thresholds registry
  let order ← (migrationOrder settings.dependencyWeight report.dependencies
    report.constructs.components).mapError .overflow
  return ⟨report, order, request.output.getD settings.outputPath⟩

/-- Writes the artifact of an outcome. -/
def writeArtifact (workspace : Workspace) (access : Access) (outcome : RunOutcome) :
    Except Fault Unit × Workspace :=
  match access.write workspace outcome.outputPath (utf8Encode outcome.report.render.toList) with
  | (.ok (), written) => (.ok (), written)
  | (.error cause, left) => (.error (.artifactWrite outcome.outputPath cause), left)

end Workspace

namespace RunRequest

/-- Tells on a console as much as it takes, unless the run is quiet. -/
def tell (request : RunRequest) (console : Sink) (parts : List String) : Sink :=
  if request.quiet then console else (console.writeAll parts).1

/-- What a finished run has to tell. -/
def closingParts (request : RunRequest) (outcome : RunOutcome) : List String :=
  request.style.report outcome.report.summary outcome.order ++ [runClosing outcome.outputPath]

end RunRequest

/-- Runs an analysis; a console that stops taking output changes nothing else. -/
def Workspace.analyze (workspace : Workspace) (access : Access) (request : RunRequest)
    (console : Sink) : RunEnd :=
  match workspace.runSettings request with
  | .error fault => ⟨.error fault, workspace, console⟩
  | .ok settings =>
    -- The banner is told before the scan can fail.
    let opened := request.tell console [runBanner]
    match workspace.evaluate access settings request with
    | .error fault => ⟨.error fault, workspace, opened⟩
    | .ok outcome =>
      match workspace.writeArtifact access outcome with
      | (.error fault, left) => ⟨.error fault, left, opened⟩
      | (.ok (), written) =>
        ⟨.ok outcome, written, request.tell opened (request.closingParts outcome)⟩

end Stocktake
