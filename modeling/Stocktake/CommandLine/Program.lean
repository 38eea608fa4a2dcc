import Stocktake.CommandLine.Parser
import Stocktake.Run
import Stocktake.Settings.Starter

/-! The program: arguments in, a changed workspace, texts and an exit code out. -/

namespace Stocktake.CommandLine

/-- What a program ends with. -/
structure Ending where
  exitCode : Nat
  /-- The bytes on the standard output. -/
  output : Bytes
  /-- What is told about the fault that ended it. -/
  complaint : Option String
  workspace : Workspace

/-- The text that answers a request for the version. -/
def versionText : String :=
  "migramap 0.1.0\n"

/-- The text that answers a request for help. -/
def helpText : String :=
  "Usage: migramap <COMMAND>\n\nCommands:\n  analyze  Analyze a source tree\n" ++
    "  init     Create a configuration file\n"

/-- The exit code of a run that ends at once. -/
def abortCode : Nat :=
  101

/-- The lines of a text, each but the first behind a margin. -/
def withMargin (margin text : String) : String :=
  String.ofList (text.toList.flatMap fun c => if c == '\n' then c :: margin.toList else [c])

/-- Lists causes behind their numbers. -/
def numberedCauses (first : Nat) : List String → String
  | [] => ""
  | cause :: causes =>
    "    " ++ first.repr ++ ": " ++ withMargin "       " cause ++ "\n" ++
      numberedCauses (first + 1) causes

/-- A complaint with the causes behind it, which are numbered when there are several. -/
def complaintOf (heading : String) : List String → String
  | [] => "Error: " ++ heading ++ "\n"
  | [cause] => "Error: " ++ heading ++ "\n\nCaused by:\n    " ++ withMargin "    " cause ++ "\n"
  | causes => "Error: " ++ heading ++ "\n\nCaused by:\n" ++ numberedCauses 0 causes

/-- Ends an analysis. -/
def endAnalysis (path : String) (finish : RunEnd) : Ending :=
  let output := finish.console.received
  match finish.result with
  | .ok _ => ⟨0, output, none, finish.workspace⟩
  -- A run that ends at once tells of no causes.
  | .error (.overflow _) => ⟨abortCode, output, none, finish.workspace⟩
  | .error fault =>
    ⟨1, output, some (complaintOf ("analysis of " ++ path ++ " failed") fault.causes),
      finish.workspace⟩

/-- Writes a starter file into the working directory and ends. -/
def runInit (workspace : Workspace) (force : Bool) : Ending :=
  match workspace.writeStarter "." force with
  | .ok (path, written) =>
    ⟨0, utf8Encode ("Created " ++ path ++ " configuration file\n").toList, none, written⟩
  | .error fault => ⟨1, [], some (complaintOf fault.message []), workspace⟩

/-- The request that options make; only a terminal gets color, and only when it is wanted. -/
def AnalyzeOptions.request (options : AnalyzeOptions) (terminal : Bool) : RunRequest where
  root := options.path
  output := options.output
  settingsFile := options.config
  style := { format := options.format, color := terminal && !options.plain }
  quiet := options.quiet

/-- The paths that a command names, and the one that its settings give for the report. -/
def Command.paths (command : Command) (workspace : Workspace) : List String :=
  match command with
  | .init _ => []
  | .analyze options =>
    options.path :: options.output.toList ++ options.config.toList ++
      match workspace.runSettings (options.request false) with
      | .ok settings => [settings.outputPath]
      | .error _ => []

/-- Runs the program, which may be told that its output goes to a terminal. -/
def run (workspace : Workspace) (terminal : Bool) (arguments : List String) : Ending :=
  match parse arguments with
  | .ok (.analyze options) =>
    endAnalysis options.path
      (workspace.analyze .direct (options.request terminal) (.fresh none))
  | .ok (.init force) => runInit workspace force
  | .error .displayVersion => ⟨0, utf8Encode versionText.toList, none, workspace⟩
  | .error .displayHelp => ⟨0, utf8Encode helpText.toList, none, workspace⟩
  | .error stop => ⟨stop.exitCode, [], none, workspace⟩

end Stocktake.CommandLine
