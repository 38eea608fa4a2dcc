import Stocktake.Proofs.Walk.Listing
import Stocktake.Proofs.Walk.Order
import Stocktake.Proofs.Walk.Reach
import Stocktake.Scan

/-! A walk takes the visible files with a wanted extension that no pattern leaves out, in order. -/

namespace Stocktake

namespace Workspace

variable {workspace : Workspace} {root : String} {base : Location} {entry : Entry}
  {rules : WalkRules}

/-- The chains that a walk takes. -/
def takenChains (workspace : Workspace) (rules : WalkRules) (root : String) (base : Location) :
    List Chain :=
  (workspace.reachedChains rules root base).filter fun chain =>
    workspace.isTaken rules (walkedPath root chain)

/-- A walk takes what it reaches, where the path is one to take. -/
theorem mem_takenChains_iff (stands : (workspace.tree.get? base).isSome) {chain : Chain} :
    chain ∈ workspace.takenChains rules root base ↔
      workspace.IsReached rules root base chain ∧
        workspace.isTaken rules (walkedPath root chain) := by
  -- Of the chains that are reached, those are kept whose paths are taken.
  rw [takenChains, List.mem_filter, (reachedChains_spec stands).1]

/-- No chain is taken twice. -/
theorem nodup_takenChains (stands : (workspace.tree.get? base).isSome) :
    (workspace.takenChains rules root base).Nodup :=
  -- No chain is reached twice.
  (reachedChains_spec stands).2.sublist List.filter_sublist

/-- A walk lists the paths of the chains that it takes, in order, and none from a lone dash. -/
theorem walk_eq_ok (here : workspace.find root = .ok (base, entry)) :
    workspace.walk rules root =
      .ok (if isStandardInput root then []
        else ((workspace.takenChains rules root base).mergeSort chainsInOrder).map
          (walkedPath root)) := by
  -- The root is found, and only a lone dash is treated otherwise.
  rw [walk, here]
  cases isStandardInput root <;> rfl

/-- A chain leads to a source file, which has its path: through directories and visible names to a
file, or to a link to one, with a wanted extension, and on a path that no pattern leaves out. -/
structure IsSource (workspace : Workspace) (settings : ScanSettings) (globs : List Glob)
    (root : String) (base : Location) (chain : Chain) (path : String) : Prop where
  spelled : path = walkedPath root chain
  visible : ∀ name ∈ chain, Path.isHidden name.text = false
  within : ∀ inner name outer, chain = inner ++ name :: outer →
    workspace.tree.get? (outer ++ base) = some .directory
  ends : (∃ content, workspace.tree.get? (chain ++ base) = some (.file content)) ∨
    (∃ target, workspace.tree.get? (chain ++ base) = some (.link target)) ∧ workspace.isFile path
  wanted : ∃ extension ∈ settings.extensions,
    Path.extension? path = some (bareExtension extension)
  kept : ∀ glob ∈ globs, glob.matchesPath path = false

/-- The rules of settings whose patterns are read, and which do not respect ignore files. -/
def quietRules (settings : ScanSettings) (globs : List Glob) : WalkRules :=
  ⟨settings.extensions.map bareExtension, globs, false⟩

variable {settings : ScanSettings} {globs : List Glob}

/-- An extension is wanted when settings have it, be it with other dots in front. -/
theorem contains_bareExtension_iff {path : String} :
    (Path.extension? path).any (settings.extensions.map bareExtension).contains ↔
      ∃ extension ∈ settings.extensions,
        Path.extension? path = some (bareExtension extension) := by
  -- The bare extensions are those of the settings, one by one.
  cases Path.extension? path with
  | none => simp
  | some extension => simp [eq_comm]

/-- A path is taken when it leads to a file, has a wanted extension, and no pattern leaves it out. -/
theorem isTaken_quietRules {path : String} :
    workspace.isTaken (quietRules settings globs) path ↔
      (∃ extension ∈ settings.extensions,
          Path.extension? path = some (bareExtension extension)) ∧
        workspace.isFile path ∧ ∀ glob ∈ globs, glob.matchesPath path = false := by
  -- The three conditions are those of the test, regrouped.
  rw [isTaken, quietRules, Bool.and_eq_true, Bool.and_eq_true, contains_bareExtension_iff,
    and_assoc]
  simp

/-- The chains that a walk takes are put in strict order. -/
theorem pairwise_precedes_takenChains (here : workspace.find root = .ok (base, entry)) :
    (((workspace.takenChains rules root base).mergeSort chainsInOrder).map
      (walkedPath root)).Pairwise Path.Precedes := by
  -- No chain is listed twice, so that sorting puts them in strict order.
  obtain ⟨reached, stands⟩ := find_eq_ok.mp here
  have present := (reach_eq_ok.mp reached).2.1
  have once : (workspace.takenChains rules root base).Nodup :=
    nodup_takenChains (Option.isSome_of_mem stands)
  have distinct : ((workspace.takenChains rules root base).mergeSort chainsInOrder).Nodup :=
    (List.mergeSort_perm _ _).nodup_iff.mpr once
  have ordered := List.pairwise_mergeSort chainsInOrder_trans chainsInOrder_total
    (workspace.takenChains rules root base)
  refine List.pairwise_map.mpr ((ordered.and distinct).imp fun ⟨before, apart⟩ => ?_)
  exact precedes_of_chainsInOrder present before apart

/-- Rules have the extensions of their settings without leading dots, and respect ignore files when
the settings do. -/
theorem ofSettings_eq_ok (parsed : WalkRules.ofSettings settings = .ok rules) :
    rules.extensions = settings.extensions.map bareExtension ∧
      rules.respectGitignore = settings.respectGitignore := by
  rw [WalkRules.ofSettings] at parsed
  cases globs : settings.ignored.mapM Glob.parse with
  | error flaw =>
    rw [globs] at parsed
    cases parsed
  | ok ignored =>
    -- With its patterns read, all else is taken over as it is.
    rw [globs] at parsed
    obtain rfl := Except.ok.inj parsed
    exact ⟨rfl, rfl⟩

/-- The files of settings are those that a walk by their rules takes. -/
theorem sourceFiles_of_rules (wellFormed : WalkRules.ofSettings settings = .ok rules) :
    workspace.sourceFiles settings root = (workspace.walk rules root).mapError (.walk root) := by
  -- The rules are made first, and a failure of the walk is told with its root.
  rw [sourceFiles, wellFormed]
  rfl

/-- The files of settings are the paths of the chains that their walk takes, in strict order, and
there are none for a lone dash. -/
theorem exists_files (wellFormed : WalkRules.ofSettings settings = .ok rules)
    (here : workspace.find root = .ok (base, entry)) :
    ∃ files, workspace.sourceFiles settings root = .ok files ∧
      (∀ path, path ∈ files ↔ isStandardInput root = false ∧
        ∃ chain ∈ workspace.takenChains rules root base, walkedPath root chain = path) ∧
      files.Pairwise Path.Precedes := by
  -- The walk sorts the chains that it takes, and sorting adds and drops none.
  refine ⟨_, by rw [sourceFiles_of_rules wellFormed, walk_eq_ok here]; rfl, ?_⟩
  cases isStandardInput root with
  | true => simp
  | false => exact ⟨by simp, pairwise_precedes_takenChains here⟩

/-- Settings that respect no ignore files give quiet rules. -/
theorem ofSettings_eq_quietRules (quiet : settings.respectGitignore = false)
    (wellFormed : settings.ignored.mapM Glob.parse = .ok globs) :
    WalkRules.ofSettings settings = .ok (quietRules settings globs) := by
  -- The patterns are read as these globs, and ignore files are off.
  rw [WalkRules.ofSettings, wellFormed, quiet]
  rfl

/-- The files of settings that respect no ignore files are those that their walk takes. -/
theorem sourceFiles_eq_walk (quiet : settings.respectGitignore = false)
    (wellFormed : settings.ignored.mapM Glob.parse = .ok globs) :
    workspace.sourceFiles settings root =
      (workspace.walk (quietRules settings globs) root).mapError (.walk root) :=
  -- These are the rules that the settings give.
  sourceFiles_of_rules (ofSettings_eq_quietRules quiet wellFormed)

/-- Where the same stands everywhere, the same paths lead to the same. -/
theorem find_congr {other : Workspace} (here : other.here = workspace.here)
    (same : ∀ place, other.tree.get? place = workspace.tree.get? place) (path : String) :
    other.find path = workspace.find path :=
  -- Nothing that stands on the way has changed.
  find_eq_of_way here fun place _ => same place

/-- Where the same stands everywhere, the same chains lead to source files. -/
theorem IsSource.congr {other : Workspace} (here : other.here = workspace.here)
    (same : ∀ place, other.tree.get? place = workspace.tree.get? place) {chain : Chain}
    {path : String} (source : workspace.IsSource settings globs root base chain path) :
    other.IsSource settings globs root base chain path where
  -- Each condition is about places, or about the path alone.
  spelled := source.spelled
  visible := source.visible
  within := by simpa only [same] using source.within
  ends := by simpa only [same, isFile, find_congr here same] using source.ends
  wanted := source.wanted
  kept := source.kept

/-- The name of a directory. -/
def appName : EntryName :=
  ⟨"app", by decide⟩

/-- The name of a script. -/
def scriptName : EntryName :=
  ⟨"a.js", by decide⟩

/-- A workspace with one file. -/
def withSource (name : EntryName) (content : Bytes) : Workspace where
  tree := FileTree.empty.put name [] (.file content)
  here := []

/-- A workspace with one directory, in which a script stands. -/
def withScript (home : EntryName) : Workspace where
  tree := (FileTree.empty.put home [] .directory).put scriptName [home] (.file [])
  here := []

end Workspace

end Stocktake
