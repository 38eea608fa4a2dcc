import Stocktake.Fault
import Stocktake.Registry
import Stocktake.Walk

/-! A scan walks a root and records every file on the way, or why it could not be read. -/

namespace Stocktake

/-- Why the text of a source file cannot be had. -/
inductive ReadFault
  /-- The system refuses to read the file, which is told with its path. -/
  | system (cause : SystemFault)
  /-- Something else goes wrong, which is told in its own words. -/
  | other (message : String)
  deriving DecidableEq, Repr

namespace ReadFault

/-- The device that holds the file fails. -/
def device (message : String) : ReadFault :=
  .system (.device message)

/-- The wording of a fault that reading a path ends in. -/
def message (path : String) : ReadFault → String
  | .system cause => (Fault.fileRead path cause).message
  | .other message => message

end ReadFault

/-- A fault of the system is one of reading. -/
instance : Coe (Except SystemFault String) (Except ReadFault String) :=
  ⟨Except.mapError .system⟩

/-- How the text of a source file is read from its path. -/
abbrev SourceReader := String → Except ReadFault String

/-- Reads the source files of a workspace. -/
def Workspace.reader (workspace : Workspace) : SourceReader := fun path =>
  workspace.readSource path

/-- What comes of a source file. -/
inductive FileOutcome
  | analyzed (analysis : Analysis)
  | failed (failure : Failure)
  deriving DecidableEq, Repr

/-- Reads and analyses a file, which is recorded under its path below the root. -/
def FileOutcome.ofPath (root : String) (read : SourceReader) (path : String) : FileOutcome :=
  match read path with
  | .ok content => .analyzed (Analysis.ofContent (Path.relative root path) content)
  | .error cause => .failed ⟨Path.relative root path, cause.message path⟩

namespace Registry

/-- Records what came of a file. -/
def recordOutcome (registry : Registry) : FileOutcome → Registry
  | .analyzed analysis => registry.recordFile analysis
  | .failed failure => registry.recordFailure failure

/-- The registry that outcomes fill in turn. -/
def ofOutcomes (outcomes : List FileOutcome) : Registry :=
  outcomes.foldl recordOutcome empty

/-- The registry of a list of files; a file that cannot be read does not stop the others. -/
def ofFiles (root : String) (read : SourceReader) (paths : List String) : Registry :=
  ofOutcomes (paths.map (FileOutcome.ofPath root read))

end Registry

namespace Workspace

/-- Lists the files that settings select below a root; a malformed pattern is found first. -/
def sourceFiles (workspace : Workspace) (settings : ScanSettings) (root : String) :
    Except Fault (List String) := do
  let rules ← (WalkRules.ofSettings settings).mapError .pattern
  (workspace.walk rules root).mapError (.walk root)

/-- Scans the source files below a root. -/
def scan (workspace : Workspace) (settings : ScanSettings) (read : SourceReader)
    (root : String) : Except Fault Registry := do
  return Registry.ofFiles root read (← workspace.sourceFiles settings root)

end Workspace

end Stocktake
