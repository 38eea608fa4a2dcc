import Stocktake.CommandLine.Program

/-! The executable notes what stands on the disk, runs the program, and puts its changes there. -/

namespace Stocktake.Main

/-- The type of what stands under a name, without passing a link. -/
def typeOf? (home name : String) : IO (Option IO.FS.FileType) := do
  try
    return some (← (IO.FS.DirEntry.mk home name).path.symlinkMetadata).type
  catch _ =>
    return none

/-- The path without links of what a path leads to, if it leads anywhere. -/
def physical? (path : String) : IO (Option String) := do
  try
    return some (← IO.FS.realPath path).toString
  catch _ =>
    return none

/-- Notes a file or a directory that stands at a path without links. -/
def noteStanding (workspace : Workspace) (home name : String) : IO Workspace := do
  let path := Path.join home name
  let ready := (workspace.makeDirectories home).2
  match ← typeOf? home name with
  | some .dir => return (ready.makeDirectories path).2
  | some .file =>
    try
      let content := (← IO.FS.readBinFile path).data.toList
      return (ready.write path content).toOption.getD ready
    catch _ =>
      return ready
  | _ => return ready

/-- The directory and the name that a path ends with. -/
def ending? (path : String) : Option (String × String) := do
  match (Path.components path).getLast? with
  | some (.name name) => return (← Path.parent? path, name)
  | _ => none

/-- Notes what stands under a name in a directory, and behind it when it is a link. -/
def note (workspace : Workspace) (home name : String) : IO Workspace := do
  let noted ← noteStanding workspace home name
  if !(← typeOf? home name) matches some .symlink then return noted
  match ← physical? (Path.join home name) with
  | none => return noted
  | some target =>
    let linked := (noted.makeLink (Path.join home name) target).toOption.getD noted
    match ending? target with
    | some (parent, last) => noteStanding linked parent last
    | none => return linked

/-- Notes the entries that lead to a path, each where it really stands. -/
def noteAlong (workspace : Workspace) (path : String) : IO Workspace := do
  let mut noted := workspace
  for above in (Path.ancestors (path.length + 1) path).reverse do
    if let some (parent, name) := ending? above then
      if let some home ← physical? parent then
        noted ← note noted home name
  return noted

/-- Notes everything below a directory. -/
partial def noteBelow (workspace : Workspace) (home : String) : IO Workspace := do
  let entries ←
    try (IO.FS.DirEntry.mk home "").path.readDir
    catch _ => pure #[]
  let mut noted := workspace
  for entry in entries do
    noted ← note noted home entry.fileName
    if (← typeOf? home entry.fileName) matches some .dir then
      noted ← noteBelow noted (Path.join home entry.fileName)
  return noted

/-- Notes the settings files that a search from a directory can find. -/
def noteSettings (workspace : Workspace) (here : String) : IO Workspace := do
  let mut noted := workspace
  for directory in Path.ancestors searchDepth here do
    noted ← note noted directory settingsFileName
  return noted

/-- Puts a file into its place as a whole. -/
def place (path : String) (content : Bytes) : IO Unit := do
  let prepared := path ++ ".new"
  IO.FS.writeBinFile prepared ⟨content.toArray⟩
  IO.FS.rename prepared path

/-- Puts the directories and files on the disk in which a workspace differs from another. -/
def apply (before after : Workspace) : IO Unit := do
  for location in after.tree.places do
    let entry := after.tree.get? location
    if before.tree.get? location ≠ entry then
      match entry with
      | some .directory => IO.FS.createDirAll (pathTo location)
      | some (.file content) => place (pathTo location) content
      | _ => pure ()

/-- What stands on the disk as far as arguments can lead to it. -/
def observe (here : String) (arguments : List String) : IO Workspace := do
  let settled ← noteSettings ⟨.empty, []⟩ here
  let place := (settled.find here).toOption.map Prod.fst
  let start : Workspace := { settled with here := place.getD [] }
  match CommandLine.parse arguments with
  | .error _ => return start
  | .ok command =>
    let mut noted := start
    -- The settings may name one more path, which is known only after their file was noted.
    for path in command.paths start do
      noted ← noteAlong noted (Path.join here path)
    for path in command.paths noted do
      noted ← noteAlong noted (Path.join here path)
    if let .analyze options := command then
      if let some root ← physical? (Path.join here options.path) then
        noted ← noteBelow noted root
    return noted

end Stocktake.Main

open Stocktake in
/-- Runs the program on the disk. -/
def main (arguments : List String) : IO UInt32 := do
  let output ← IO.getStdout
  let before ← Main.observe (← IO.currentDir).toString arguments
  let ending := CommandLine.run before (← output.isTty) arguments
  Main.apply before ending.workspace
  try
    output.write ⟨ending.output.toArray⟩
    output.flush
  catch _ =>
    -- A console that stops taking output changes nothing else.
    pure ()
  if let some complaint := ending.complaint then
    IO.eprint complaint
  return UInt32.ofNat ending.exitCode
