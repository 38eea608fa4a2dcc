import Stocktake.Ranking
import Stocktake.Report.Console

/-! What a command line can ask for, and why it may ask for nothing. -/

namespace Stocktake.CommandLine

/-- The options of the analysis of a source tree. -/
structure AnalyzeOptions where
  path : String := "app"
  output : Option String := none
  format : Format := .terminal
  config : Option String := none
  quiet : Bool := false
  /-- How often more log output was asked for. -/
  verbosity : Nat := 0
  plain : Bool := false
  noParallel : Bool := false
  /-- The number of workers; zero leaves it open. -/
  jobs : Nat := 0
  deriving DecidableEq, Repr

/-- A command with its options. -/
inductive Command
  | analyze (options : AnalyzeOptions)
  | init (force : Bool)
  deriving DecidableEq, Repr

/-- Why arguments yield no command. -/
inductive Stop
  | unknownArgument
  | invalidValue
  /-- An option that may be given once was given again. -/
  | argumentConflict
  /-- A number was expected. -/
  | valueValidation
  /-- A flag was given a value. -/
  | tooManyValues
  | invalidSubcommand
  | displayHelp
  | displayVersion
  /-- Nothing was asked for, which is answered like a request for help. -/
  | displayHelpOnMissingArgumentOrSubcommand
  deriving DecidableEq, Repr

/-- A request for help or for the version is no failure. -/
def Stop.exitCode : Stop → Nat
  | .displayHelp => 0
  | .displayVersion => 0
  | _ => 2

/-- How often a command asks for more log output. -/
def Command.verbosity : Command → Nat
  | .analyze options => options.verbosity
  | .init _ => 0

/-- The log level that a verbosity selects. -/
def logLevel : Nat → String
  | 0 => "warn"
  | 1 => "info"
  | 2 => "debug"
  | _ => "trace"

end Stocktake.CommandLine
