import Stocktake.FileTree.Workspace

/-! Changes to a workspace; one that fails leaves no more behind than directories it has made. -/

namespace Stocktake

/-- The last step of a path, the steps before it, and whether a slash stands behind it. -/
structure Approach where
  leading : List Step
  last : Step
  slashed : Bool
  deriving DecidableEq, Repr

/-- Takes the last step off the steps of a path; a path of slashes stays where it begins. -/
def Approach.ofSteps (steps : List Step) : Approach :=
  let backwards := steps.reverse
  match backwards.dropWhile (· == .slash) with
  | last :: leading => ⟨leading.reverse, last, backwards.head? == some .slash⟩
  | [] => ⟨[], .stay, true⟩

namespace Workspace

/-- The directory in which the last step of a path is taken. -/
def homeOf (workspace : Workspace) (path : String) : Except SystemFault Location :=
  workspace.reach false path ((Approach.ofSteps (stepsOf path)).leading ++ [.slash])

/-- The workspace with an entry put into a directory. -/
def withEntry (workspace : Workspace) (name : EntryName) (home : Location) (entry : Entry) :
    Workspace :=
  { workspace with tree := workspace.tree.put name home entry }

/-- Makes a new entry at the end of a path; what stands there, even a link, is in the way. -/
def create (workspace : Workspace) (path : String) (entry : Entry) :
    Except SystemFault Workspace := do
  let approach := Approach.ofSteps (stepsOf path)
  let home ← workspace.homeOf path
  match approach.last with
  | .down name =>
    if (workspace.tree.get? (name :: home)).isSome then throw .alreadyExists
    -- Only a directory may be named with a slash behind it.
    else if approach.slashed && entry != .directory then throw .missing
    else return workspace.withEntry name home entry
  | .nowhere => throw .nameTooLong
  -- A dot step leads to a directory that is there already.
  | _ => throw .alreadyExists

/-- Makes a directory. -/
def makeDirectory (workspace : Workspace) (path : String) : Except SystemFault Workspace :=
  workspace.create path .directory

/-- Makes a link; its target may be any text but the empty one. -/
def makeLink (workspace : Workspace) (path target : String) : Except SystemFault Workspace :=
  if target.toList.contains '\x00' then .error .nullInPath
  else if target.isEmpty then .error .missing
  else if pathLimit ≤ target.utf8ByteSize then .error .nameTooLong
  else workspace.create path (.link target)

/-- Makes the first of a chain of directories, each inside the next, with those that are missing. -/
def makeChain (workspace : Workspace) : List String → Except SystemFault Unit × Workspace
  | [] => (.ok (), workspace)
  | path :: parents =>
    -- Above the first name of a relative path stands the working directory.
    if path.isEmpty then (.ok (), workspace)
    else
      match workspace.makeDirectory path with
      | .ok made => (.ok (), made)
      | .error .missing =>
        match workspace.makeChain parents with
        | (.error cause, made) => (.error cause, made)
        | (.ok (), made) =>
          match made.makeDirectory path with
          | .ok done => (.ok (), done)
          | .error cause => (if made.isDirectory path then .ok () else .error cause, made)
      -- A directory that is there already is as good as a new one.
      | .error cause => (if workspace.isDirectory path then .ok () else .error cause, workspace)

/-- Makes a directory with all directories above it that are missing. -/
def makeDirectories (workspace : Workspace) (path : String) :
    Except SystemFault Unit × Workspace :=
  workspace.makeChain (Path.ancestors (path.length + 1) path)

/-- Writes a file at the end of a path, through a link that stands there. -/
def write (workspace : Workspace) (path : String) (content : Bytes) :
    Except SystemFault Workspace := do
  match ← workspace.reach true path (stepsOf path) with
  | name :: home =>
    if workspace.tree.get? (name :: home) = some .directory then throw .isDirectory
    else return workspace.withEntry name home (.file content)
  -- The route ends at the root.
  | [] => throw .isDirectory

/-- The directory in which a new content is prepared before it takes its place. -/
def stagingDirectory (path : String) : String :=
  match Path.parent? path with
  | some parent => if parent.isEmpty then "." else parent
  | none => "."

/-- The name under which a new content is prepared; nothing but its length ever shows. -/
def stagingName : String :=
  ".tmp000000"

/-- The absolute path on which a new content is prepared in a directory. -/
def stagingPath (workspace : Workspace) (directory : String) : String :=
  Path.join (Path.join (pathTo workspace.here) directory) stagingName

/-- Moves a prepared file to the end of a path; a link there is replaced, not followed. -/
def install (workspace : Workspace) (path : String) (content : Bytes) :
    Except SystemFault Workspace := do
  if path.toList.contains '\x00' then throw .invalidArgument
  let approach := Approach.ofSteps (stepsOf path)
  let home ← workspace.homeOf path
  match approach.last with
  | .down name =>
    if approach.slashed then throw .notDirectory
    else if workspace.tree.get? (name :: home) = some .directory then throw .isDirectory
    else return workspace.withEntry name home (.file content)
  | .nowhere => throw .nameTooLong
  | _ => throw .busy

/-- Prepares a file in a directory and moves it to the end of a path. -/
def stage (workspace : Workspace) (directory path : String) (content : Bytes) :
    Except SystemFault Workspace :=
  match workspace.find directory with
  | .ok (_, .directory) =>
    if pathLimit ≤ (workspace.stagingPath directory).utf8ByteSize then
      .error (.staging directory .nameTooLong)
    else workspace.install path content
  | .ok _ => .error (.staging directory .notDirectory)
  | .error cause => .error (.staging directory cause)

/-- Makes the directories that the end of a path needs, unless something stands there already. -/
def prepare (workspace : Workspace) (path : String) : Except SystemFault Unit × Workspace :=
  if workspace.pathExists (stagingDirectory path) then (.ok (), workspace)
  else workspace.makeDirectories (stagingDirectory path)

/-- Replaces the entry at the end of a path as a whole, in directories that are made as needed. -/
def replace (workspace : Workspace) (path : String) (content : Bytes) :
    Except SystemFault Unit × Workspace :=
  let (outcome, ready) := workspace.prepare path
  -- From here on the directories stay, whatever becomes of the file.
  match outcome with
  | .error cause => (.error cause, ready)
  | .ok () =>
    match ready.stage (stagingDirectory path) path content with
    | .ok done => (.ok (), done)
    | .error cause => (.error cause, ready)

/-- Takes away the entry at the end of a path, a directory with all that it holds. -/
def remove (workspace : Workspace) (path : String) : Except SystemFault Workspace := do
  let home ← workspace.homeOf path
  match (Approach.ofSteps (stepsOf path)).last with
  | .down name =>
    if (workspace.tree.get? (name :: home)).isSome then
      return { workspace with tree := workspace.tree.remove (name :: home) }
    else throw .missing
  | .nowhere => throw .nameTooLong
  | _ => throw .busy

end Workspace

end Stocktake
