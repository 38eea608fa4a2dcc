import Stocktake.FileTree.SystemFault
import Stocktake.Glob
import Stocktake.Ranking
import Stocktake.Settings.Basic

/-! Faults are the reasons for which a run ends without a result, and the words for them. -/

namespace Stocktake

/-- Why the text of a settings file is refused. -/
inductive SettingsError
  /-- The text is no TOML, or not of the right shape. -/
  | unreadable
  /-- A dotted name has too many parts. -/
  | longName
  | flawed (flaw : SettingsFlaw)
  deriving DecidableEq, Repr

/-- Why there are no settings to work with. -/
inductive ConfigurationFault
  | unreadable (path : String) (cause : SystemFault)
  | invalid (path : String) (error : SettingsError)
  /-- A starter file would overwrite what is there. -/
  | alreadyThere
  deriving DecidableEq, Repr

/-- Why a run ends without a result. -/
inductive Fault
  | fileRead (path : String) (cause : SystemFault)
  | artifactWrite (path : String) (cause : SystemFault)
  | configuration (cause : ConfigurationFault)
  | walk (root : String) (cause : SystemFault)
  | pattern (flaw : GlobFlaw)
  | system (cause : SystemFault)
  /-- A score outgrows its bits, which ends a run at once. -/
  | overflow (step : Overflow)
  deriving DecidableEq, Repr

/-- The wording of a configuration fault, behind its heading. -/
def configurationHeading (message : String) : String :=
  "Configuration error: " ++ message

/-- The wording of a refusal. -/
def SettingsError.message : SettingsError → String
  | .unreadable => "TOML parse error"
  | .longName => "recursion limit\n"
  | .flawed flaw => configurationHeading flaw.message

/-- The wording of a configuration fault without its heading. -/
def ConfigurationFault.message : ConfigurationFault → String
  | .unreadable path cause => "cannot read " ++ path ++ ": " ++ cause.message
  | .invalid path error => "invalid " ++ path ++ ": " ++ error.message
  | .alreadyThere => "Configuration file already exists. Use --force to overwrite."

namespace Fault

/-- The wording of a fault. -/
def message : Fault → String
  | .fileRead path cause => "Failed to read " ++ path ++ ": " ++ cause.message
  | .artifactWrite path cause => "Failed to write report to " ++ path ++ ": " ++ cause.message
  | .configuration cause => configurationHeading cause.message
  | .walk root cause => root ++ ": " ++ cause.message
  | .pattern flaw => flaw.message
  | .system cause => cause.message
  | .overflow step => step.message

/-- A fault with the causes that are told apart from it, from the fault itself on. -/
def causes (fault : Fault) : List String :=
  match fault with
  | .fileRead _ cause => [fault.message, cause.message]
  | .artifactWrite _ cause => [fault.message, cause.message]
  | _ => [fault.message]

end Fault

end Stocktake
