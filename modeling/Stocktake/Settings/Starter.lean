import Stocktake.Fault
import Stocktake.FileTree.Change
import Stocktake.Settings.Discovery

/-! A starter file spells out the standard settings, to be edited from there. -/

namespace Stocktake

/-- The text of a starter file. -/
def starterText : String :=
"# migramap configuration

[scan]
extensions = [\"js\", \"ts\"]
ignore = [
    \"**/node_modules/**\",
    \"**/bower_components/**\",
    \"*.min.js\"
]
respect_gitignore = false

[thresholds]
low_max = 100
medium_max = 300

[scoring]
dependency_weight = 10

[output]
path = \"component-analysis.json\"
"

namespace Workspace

/-- Writes a starter file into a directory and yields its path; force overwrites what is there. The
file is emptied and filled in one step, and no write stops between the two. -/
def writeStarter (workspace : Workspace) (directory : String) (force : Bool) :
    Except Fault (String × Workspace) :=
  let path := Path.join directory settingsFileName
  -- A link that leads nowhere does not count as a file that is there.
  if workspace.pathExists path && !force then .error (.configuration .alreadyThere)
  else
    match workspace.write path (utf8Encode starterText.toList) with
    | .ok written => .ok (path, written)
    | .error cause => .error (.system cause)

end Workspace

end Stocktake
