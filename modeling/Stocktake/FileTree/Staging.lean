import Stocktake.Fault
import Stocktake.FileTree.Change

/-! A new content is prepared in a temporary file, which is gone when the write has ended. -/

namespace Stocktake

/-- How far the preparation of a temporary file comes. -/
inductive Filling
  | complete
  /-- The device fails behind some bytes, or behind all of them, when they are to be kept. -/
  | stopped (taken : Nat) (cause : SystemFault)
  deriving DecidableEq, Repr

/-- The bytes of a content that stand in the temporary file. -/
def Filling.bytes (filling : Filling) (content : Bytes) : Bytes :=
  match filling with
  | .complete => content
  | .stopped taken _ => content.take taken

namespace Workspace

/-- The workspace without an entry of a directory. -/
def withoutEntry (workspace : Workspace) (name : EntryName) (home : Location) : Workspace :=
  { workspace with tree := workspace.tree.remove (name :: home) }

/-- The directory that is to hold a temporary file, if there is room for one of the given name. -/
def stagingHome (workspace : Workspace) (name : EntryName) (directory : String) :
    Except SystemFault Location :=
  match workspace.find directory with
  | .ok (home, .directory) =>
    if pathLimit ≤ (workspace.stagingPath directory).utf8ByteSize then
      .error (.staging directory .nameTooLong)
    else if (workspace.tree.get? (name :: home)).isSome then
      .error (.staging directory .alreadyExists)
    else .ok home
  | .ok _ => .error (.staging directory .notDirectory)
  | .error cause => .error (.staging directory cause)

/-- Moves a file of a directory to the end of a path. -/
def moveFile (workspace : Workspace) (name : EntryName) (home : Location) (path : String) :
    Except SystemFault Workspace :=
  match workspace.tree.get? (name :: home) with
  -- The old entry ends before the new one begins, also when both are the same.
  | some (.file content) => (workspace.withoutEntry name home).install path content
  | _ => .error .missing

/-- Moves a temporary file to the end of a path, or takes it away when that cannot be done. -/
def settle (workspace : Workspace) (name : EntryName) (home : Location) (path : String) :
    Filling → Except SystemFault Unit × Workspace
  | .complete =>
    match workspace.moveFile name home path with
    | .ok done => (.ok (), done)
    | .error cause => (.error cause, workspace.withoutEntry name home)
  | .stopped _ cause => (.error cause, workspace.withoutEntry name home)

/-- Prepares a content in a temporary file of a directory, and moves that to the end of a path. -/
def stageThrough (workspace : Workspace) (name : EntryName) (filling : Filling)
    (directory path : String) (content : Bytes) : Except SystemFault Unit × Workspace :=
  match workspace.stagingHome name directory with
  | .error cause => (.error cause, workspace)
  | .ok home =>
    (workspace.withEntry name home (.file (filling.bytes content))).settle name home path filling

/-- Replaces the entry at the end of a path by way of a temporary file. -/
def replaceThrough (workspace : Workspace) (name : EntryName) (filling : Filling) (path : String)
    (content : Bytes) : Except SystemFault Unit × Workspace :=
  match workspace.prepare path with
  | (.error cause, ready) => (.error cause, ready)
  | (.ok (), ready) => ready.stageThrough name filling (stagingDirectory path) path content

end Workspace

/-- The ways in which an artifact is written, or is not. -/
inductive WriteMode
  /-- As one step, whatever the temporary file would be called. -/
  | whole
  /-- By way of a temporary file of a given name. -/
  | staged (name : EntryName) (filling : Filling)
  /-- The device fails before anything is done. -/
  | refused (cause : SystemFault)
  deriving DecidableEq, Repr

/-- Writes a content to the end of a path. -/
def WriteMode.perform (mode : WriteMode) (workspace : Workspace) (path : String)
    (content : Bytes) : Except SystemFault Unit × Workspace :=
  match mode with
  | .whole => workspace.replace path content
  | .staged name filling => workspace.replaceThrough name filling path content
  | .refused cause => (.error cause, workspace)

/-- Writes a text as an artifact; whatever goes wrong with it is one kind of fault. -/
def WriteMode.write (mode : WriteMode) (workspace : Workspace) (path text : String) :
    Except Fault Unit × Workspace :=
  match mode.perform workspace path (utf8Encode text.toList) with
  | (.ok (), written) => (.ok (), written)
  | (.error cause, left) => (.error (.artifactWrite path cause), left)

end Stocktake
