import Stocktake.FileTree.Basic
import Stocktake.FileTree.SystemFault
import Stocktake.Path

/-! Routes lead from a directory along the steps of a path, through the links on the way. -/

namespace Stocktake

/-- A step of a path from a directory on. -/
inductive Step
  /-- Nothing between two slashes, or behind the last one. -/
  | slash
  | stay
  | up
  | down (name : EntryName)
  /-- A name that no entry can have. -/
  | nowhere
  deriving DecidableEq, Repr

/-- The step that the text between two slashes spells. -/
def Step.ofSegment (segment : List Char) : Step :=
  let text := String.ofList segment
  if text = "" then .slash
  else if text = "." then .stay
  else if text = ".." then .up
  else if valid : IsEntryName text then .down ⟨text, valid⟩
  else .nowhere

/-- The steps of a path. -/
def stepsOf (path : String) : List Step :=
  (path.toList.splitOn '/').map Step.ofSegment

/-- Where a path begins: an absolute one at the root, any other where it is read. -/
def routeStart (here : Location) (path : String) : Location :=
  if Path.isAbsolute path then [] else here

/-- Steps that only mark what stands before them as a directory. -/
def closesDirectory (steps : List Step) : Bool :=
  !steps.isEmpty && steps.all (· == .slash)

/-- How far a route goes without passing a link. -/
inductive Advance
  /-- The end of the route, where an entry may be missing. -/
  | arrived (place : Location)
  | blocked (cause : SystemFault)
  /-- A link in a directory, and the steps behind it. -/
  | atLink (target : String) (home : Location) (steps : List Step)
  deriving DecidableEq, Repr

/-- The number of links that a route may pass. -/
def linkLimit : Nat :=
  40

namespace FileTree

/-- Goes along steps from a place and what stands there; a new file's route ends in no slash. -/
def advanceFrom (tree : FileTree) (creates : Bool) :
    List Step → Location → Option FileNode → Advance
  | [], place, _ => .arrived place
  | step :: steps, place, some (.directory members) =>
    match step with
    | .slash => tree.advanceFrom creates steps place (some (.directory members))
    | .stay => tree.advanceFrom creates steps place (some (.directory members))
    | .up => tree.advanceFrom creates steps place.tail (tree.root.at? place.tail)
    | .nowhere => .blocked .nameTooLong
    | .down name =>
      if creates && closesDirectory steps then .blocked .isDirectory
      else
        match OrderedMap.lookup name members with
        -- Only the last name of a route may be missing.
        | none => if steps.isEmpty then .arrived (name :: place) else .blocked .missing
        | some (.link target) => .atLink target place steps
        | some node => tree.advanceFrom creates steps (name :: place) (some node)
  -- Every step, even one that stays, is taken from a directory.
  | _ :: _, _, _ => .blocked .notDirectory

/-- Goes along steps up to the first link. -/
def advance (tree : FileTree) (creates : Bool) (steps : List Step) (place : Location) : Advance :=
  tree.advanceFrom creates steps place (tree.root.at? place)

/-- Goes along steps and through at most a given number of links. -/
def follow (tree : FileTree) (creates : Bool) (links : Nat) (steps : List Step)
    (place : Location) : Except SystemFault Location :=
  match tree.advance creates steps place with
  | .arrived place => .ok place
  | .blocked cause => .error cause
  | .atLink target home steps =>
    match links with
    | 0 => .error .tooManyLinks
    -- The steps of the target come first, and those behind the link go on from where they end.
    | links + 1 => tree.follow creates links (stepsOf target ++ steps) (routeStart home target)

end FileTree

end Stocktake
