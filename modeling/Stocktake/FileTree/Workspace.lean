import Stocktake.FileTree.Route

/-! A workspace is a file tree seen from a working directory, so that paths lead to its entries. -/

namespace Stocktake

/-- A file tree and the directory in which relative paths begin. -/
structure Workspace where
  tree : FileTree
  here : Location

/-- The length that the text of a path has to stay below, in bytes. -/
def pathLimit : Nat :=
  4096

/-- The absolute path of a place. -/
def pathTo (place : Location) : String :=
  "/" ++ String.intercalate "/" (place.reverse.map EntryName.text)

namespace Workspace

/-- The place to which steps lead from where a path begins. -/
def reach (workspace : Workspace) (creates : Bool) (path : String) (steps : List Step) :
    Except SystemFault Location :=
  -- The text as a whole is judged before any step is taken.
  if path.toList.contains '\x00' then .error .nullInPath
  else if path.isEmpty then .error .missing
  else if pathLimit ≤ path.utf8ByteSize then .error .nameTooLong
  else workspace.tree.follow creates linkLimit steps (routeStart workspace.here path)

/-- The entry that a path leads to, through links, and its place. -/
def find (workspace : Workspace) (path : String) : Except SystemFault (Location × Entry) := do
  let place ← workspace.reach false path (stepsOf path)
  match workspace.tree.get? place with
  | some entry => return (place, entry)
  | none => throw .missing

/-- A path leads to an entry. -/
def pathExists (workspace : Workspace) (path : String) : Bool :=
  match workspace.find path with
  | .ok _ => true
  | .error _ => false

/-- A path leads to a file. -/
def isFile (workspace : Workspace) (path : String) : Bool :=
  match workspace.find path with
  | .ok (_, .file _) => true
  | _ => false

/-- A path leads to a directory. -/
def isDirectory (workspace : Workspace) (path : String) : Bool :=
  match workspace.find path with
  | .ok (_, .directory) => true
  | _ => false

/-- The content of the file that a path leads to. -/
def read (workspace : Workspace) (path : String) : Except SystemFault Bytes := do
  match ← workspace.find path with
  | (_, .file content) => return content
  -- Links are behind the route, so that anything else is a directory.
  | _ => throw .isDirectory

/-- The text of the file that a path leads to, with what is no UTF-8 replaced. -/
def readSource (workspace : Workspace) (path : String) : Except SystemFault String := do
  return String.ofList (utf8Lossy (← workspace.read path))

/-- The text of the file that a path leads to, which has to be UTF-8. -/
def readText (workspace : Workspace) (path : String) : Except SystemFault String := do
  match utf8Decode? (← workspace.read path) with
  | some text => return String.ofList text
  | none => throw .notText

end Workspace

end Stocktake
