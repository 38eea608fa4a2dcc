import Stocktake.FileTree.Workspace
import Stocktake.Gitignore.Rules
import Stocktake.Settings.Basic

/-! A walk lists the source files below a root, in the order of the names that lead to them. -/

namespace Stocktake

/-- Which files a walk takes. -/
structure WalkRules where
  /-- The extensions without leading dots. -/
  extensions : List String
  ignored : List Glob
  respectGitignore : Bool
  deriving DecidableEq, Repr

/-- An extension without the dots in front of it. -/
def bareExtension (extension : String) : String :=
  String.ofList (extension.toList.dropWhile (· == '.'))

/-- The rules that settings give, unless one of their patterns is malformed. -/
def WalkRules.ofSettings (settings : ScanSettings) : Except GlobFlaw WalkRules := do
  return {
    extensions := settings.extensions.map bareExtension
    ignored := ← settings.ignored.mapM Glob.parse
    respectGitignore := settings.respectGitignore }

/-- The names that lead from a directory down to an entry, the last of them in front. -/
abbrev Chain := List EntryName

/-- The path of an entry below a root, as the walk comes to it. -/
def walkedPath (root : String) : Chain → String
  | [] => root
  | chain => Path.join root (String.intercalate "/" (chain.reverse.map EntryName.text))

/-- Ignore files with the directories in which they stand, the nearest first. -/
abbrev IgnoreStack := List (String × List Gitignore.Rule)

/-- What ignore files say on a path: the nearest one that applies decides. -/
def ignoreVerdict? (ignores : IgnoreStack) (path : String) (isDirectory : Bool) :
    Option Gitignore.Verdict :=
  ignores.findSome? fun (directory, rules) =>
    Gitignore.verdict? rules (Gitignore.pathSeenFrom directory path) isDirectory

/-- A walk enters what an ignore file includes, and else what is neither ignored nor hidden. -/
def isOpen (ignores : IgnoreStack) (path : String) (name : EntryName) (entry : Entry) : Bool :=
  match ignoreVerdict? ignores path (entry == .directory) with
  | some .ignored => false
  -- Ignore files speak before the rule on hidden names does.
  | some .included => true
  | none => !Path.isHidden name.text

/-- A root that is a lone dash stands for the standard input, where there is nothing to walk. -/
def isStandardInput (root : String) : Bool :=
  Path.components root = [.name "-"]

namespace Workspace

/-- The rules in the ignore file of a directory, none when it has no readable one. -/
def ignoreRules (workspace : Workspace) (directory : String) : List Gitignore.Rule :=
  match workspace.read (Path.join directory ".gitignore") with
  | .ok content => Gitignore.rulesOf content
  | .error _ => []

/-- The ignore files for the members of a directory: its own, if it has rules, before the others. -/
def ignoresWithin (workspace : Workspace) (rules : WalkRules) (directory : String)
    (outer : IgnoreStack) : IgnoreStack :=
  if rules.respectGitignore then
    match workspace.ignoreRules directory with
    | [] => outer
    | found => (directory, found) :: outer
  else []

mutual

/-- The chains on which a walk comes to the entries below a node at the end of a chain. -/
def chainsBelow (workspace : Workspace) (rules : WalkRules) (root : String)
    (ignores : IgnoreStack) (outer : Chain) : FileNode → List Chain
  | .directory members =>
    chainsAmong workspace rules root
      (workspace.ignoresWithin rules (walkedPath root outer) ignores) outer members
  | _ => []

/-- The chains on which a walk comes to members of a directory and to the entries below them. -/
def chainsAmong (workspace : Workspace) (rules : WalkRules) (root : String)
    (ignores : IgnoreStack) (outer : Chain) : List (EntryName × FileNode) → List Chain
  | [] => []
  | (name, node) :: members =>
    let chain := name :: outer
    let reached :=
      if isOpen ignores (walkedPath root chain) name node.entry then
        chain :: chainsBelow workspace rules root ignores chain node
      else []
    reached ++ chainsAmong workspace rules root ignores outer members

end

/-- A path is taken when it leads to a file with a wanted extension that no pattern leaves out. -/
def isTaken (workspace : Workspace) (rules : WalkRules) (path : String) : Bool :=
  (Path.extension? path).any rules.extensions.contains && workspace.isFile path &&
    !rules.ignored.any (·.matchesPath path)

/-- Names are ordered by their code points. -/
def compareNames (one other : EntryName) : Ordering :=
  List.compareLex (fun c d => compare c.toNat d.toNat) one.text.toList other.text.toList

/-- Chains are ordered by the names in them, from the root on. -/
def chainsInOrder (one other : Chain) : Bool :=
  (List.compareLex compareNames one.reverse other.reverse).isLE

/-- The chains that a walk comes to from a place; a file at the root is reached by no name. -/
def reachedChains (workspace : Workspace) (rules : WalkRules) (root : String) (base : Location) :
    List Chain :=
  [] :: match workspace.tree.root.at? base with
    | some node => workspace.chainsBelow rules root [] [] node
    | none => []

/-- The files that a walk takes, as the paths on which it comes to them, in order. Entries have no
modes, so that what stands below the root can always be listed and nothing is passed over for it. -/
def walk (workspace : Workspace) (rules : WalkRules) (root : String) :
    Except SystemFault (List String) := do
  -- A root that is not there is a fault, and an empty one is not.
  let (base, _) ← workspace.find root
  if isStandardInput root then return []
  let taken := (workspace.reachedChains rules root base).filter fun chain =>
    workspace.isTaken rules (walkedPath root chain)
  return (taken.mergeSort chainsInOrder).map (walkedPath root)

end Workspace

end Stocktake
