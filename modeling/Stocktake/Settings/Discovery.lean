import Stocktake.Fault
import Stocktake.FileTree.Workspace
import Stocktake.Toml.Reader

/-! Settings come from a named file, or from the nearest usable one above the working directory. -/

namespace Stocktake

/-- The name of a settings file. -/
def settingsFileName : String :=
  ".migramap.toml"

/-- Settings files have a name that an entry can have. -/
theorem isEntryName_settingsFileName : IsEntryName settingsFileName := by
  -- The name is a fixed text, of which every condition can be checked.
  decide

/-- How many directories a search for a settings file looks into, the first of them included. -/
def searchDepth : Nat :=
  10

/-- Reads and checks the text of a settings file. -/
def Settings.parse (text : String) : Except SettingsError Settings :=
  match Toml.Value.parse text with
  | .error .malformed => .error .unreadable
  | .error .longName => .error .longName
  | .ok value =>
    match Settings.decode? value with
    | none => .error .unreadable
    | some settings => settings.validate.mapError .flawed

namespace Workspace

/-- The settings in a file that was asked for, where every fault counts. -/
def settingsIn (workspace : Workspace) (path : String) :
    Except ConfigurationFault Settings :=
  match workspace.readText path with
  | .error cause => .error (.unreadable path cause)
  | .ok text => (Settings.parse text).mapError (.invalid path)

/-- The first usable settings in a list of directories. -/
def firstSettings? (workspace : Workspace) : List String → Option Settings
  | [] => none
  | directory :: farther =>
    match workspace.settingsIn (Path.join directory settingsFileName) with
    | .ok settings => some settings
    -- A file that is missing or unusable is passed over.
    | .error _ => workspace.firstSettings? farther

/-- The nearest usable settings in a directory and those above it, or the standard ones. -/
def settingsFrom (workspace : Workspace) (start : String) : Settings :=
  (workspace.firstSettings? (Path.ancestors searchDepth start)).getD {}

/-- The settings that are found from the working directory. -/
def discoverSettings (workspace : Workspace) : Settings :=
  workspace.settingsFrom (pathTo workspace.here)

end Workspace

end Stocktake
