import Mathlib.Data.List.Basic
import Stocktake.Proofs.Path.Relative
import Stocktake.Proofs.Registry.Failures
import Stocktake.Proofs.Walk.Selection

/-! A scan is the same from every spelling of its root, but for the texts of its failures. -/

namespace Stocktake

/-- Below its root, the path of a chain is spelled by the names of the chain alone. -/
theorem relative_walkedPath {root : String} (present : root ≠ "") (chain : Chain) :
    Path.relative root (walkedPath root chain) =
      String.intercalate "/" (chain.reverse.map EntryName.text) := by
  -- The components of the root are cut off.
  have below : Path.componentsBelow root (walkedPath root chain) = namesOf chain := by
    rw [Path.componentsBelow, List.isPrefixOf?_eq_some_iff_append_eq.mpr
      (components_walkedPath present chain).symm]
    rfl
  rw [Path.relative_eq_spelled, below, Path.spelled, namesOf, List.map_map]
  rfl

/-- Outcomes that differ in nothing but the text of a failure. -/
inductive FileOutcome.Alike : FileOutcome → FileOutcome → Prop
  | analyzed (analysis : Analysis) : Alike (.analyzed analysis) (.analyzed analysis)
  | failed (path message message' : String) :
      Alike (.failed ⟨path, message⟩) (.failed ⟨path, message'⟩)

/-- Outcomes that are alike one by one fill registries that differ in texts of failures only. -/
theorem Registry.ofOutcomes_alike {one other : List FileOutcome}
    (alike : List.Forall₂ FileOutcome.Alike one other) :
    ∃ failures, ofOutcomes other = (ofOutcomes one).withFailures failures ∧
      failures.map Failure.path = (ofOutcomes one).failures.map Failure.path := by
  -- The analyses are recorded alike, and the failures apart from them.
  have analyses : other.filterMap FileOutcome.analysis? =
      one.filterMap FileOutcome.analysis? := by
    induction alike with
    | nil => rfl
    | cons first _ ih =>
      rw [List.filterMap_cons, List.filterMap_cons, ih]
      cases first <;> rfl
  have paths : (other.filterMap FileOutcome.failure?).map Failure.path =
      (one.filterMap FileOutcome.failure?).map Failure.path := by
    clear analyses
    induction alike with
    | nil => rfl
    | cons first _ ih =>
      rw [List.filterMap_cons, List.filterMap_cons]
      cases first with
      | analyzed => exact ih
      | failed path => exact congrArg (path :: ·) ih
  refine ⟨other.filterMap FileOutcome.failure?, ?_, ?_⟩
  · rw [ofOutcomes, ofOutcomes, foldl_recordOutcome, foldl_recordOutcome, analyses]
    rfl
  · rw [ofOutcomes, foldl_recordOutcome, paths]
    rfl

namespace Workspace

variable {workspace : Workspace} {one other : String} {base : Location}

/-- A path stays below the limit of its length, and its route within the number of links. -/
def KeepsLimits (workspace : Workspace) (path : String) : Prop :=
  path.utf8ByteSize < pathLimit ∧ workspace.find path ≠ .error .tooManyLinks

/-- What a reader answers depends on what a path leads to, and not on its spelling. -/
def ReadsPlaces (workspace : Workspace) (read : SourceReader) : Prop :=
  ∀ ⦃path path' : String⦄ ⦃found : Location × Entry⦄, workspace.find path = .ok found →
    workspace.find path' = .ok found → read path = read path'

/-- The reader of a workspace reads what a path leads to. -/
theorem readsPlaces_reader : workspace.ReadsPlaces workspace.reader := by
  -- The content is read from the place that a path leads to.
  intro path path' found leads leads'
  rw [reader, reader, readSource, readSource, read, read, leads, leads']

/-- A chain of visible names leads from a place to an entry with a wanted extension. -/
structure IsCandidate (workspace : Workspace) (settings : ScanSettings) (base : Location)
    (chain : Chain) : Prop where
  visible : Visible chain
  present : (workspace.tree.get? (chain ++ base)).isSome
  wanted : ∃ name outer, chain = name :: outer ∧ ∃ extension ∈ settings.extensions,
    Path.nameExtension? name.text = some (bareExtension extension)

/-- A file keeps to the limits. -/
theorem keepsLimits_of_isFile {path : String} (leads : workspace.isFile path) :
    workspace.KeepsLimits path := by
  -- A path that leads to a file is neither too long nor stopped at too many links.
  refine ⟨short_of_isFile leads, fun stopped => ?_⟩
  rw [isFile, stopped] at leads
  simp at leads

/-- Spellings of one directory lead down a chain to the same, where both keep to the limits. -/
theorem find_respelled (here : workspace.find one = .ok (base, .directory))
    (there : workspace.find other = .ok (base, .directory)) (chain : Chain)
    (within : workspace.KeepsLimits (walkedPath one chain))
    (within' : workspace.KeepsLimits (walkedPath other chain)) :
    workspace.find (walkedPath one chain) = workspace.find (walkedPath other chain) := by
  cases chain with
  | nil => exact here.trans there.symm
  | cons name outer =>
    -- Below the directory both routes go down the same names, with links to spare.
    obtain ⟨left, reached⟩ :=
      reach_walkedPath here (List.cons_ne_nil name outer) within.1
    obtain ⟨left', reached'⟩ :=
      reach_walkedPath there (List.cons_ne_nil name outer) within'.1
    have spare := within.2
    have spare' := within'.2
    rw [find, reached] at spare
    rw [find, reached'] at spare'
    have same := FileTree.follow_of_within
      (fun stopped => spare (by rw [stopped]; rfl)) (fun stopped => spare' (by rw [stopped]; rfl))
    rw [find, find, reached, reached', same]

variable {settings : ScanSettings}

/-- Spellings of one directory take the same chains, where the limits cut off the same. -/
theorem takenChains_respelled (here : workspace.find one = .ok (base, .directory))
    (there : workspace.find other = .ok (base, .directory))
    (limits : ∀ chain, workspace.IsCandidate settings base chain →
      (workspace.KeepsLimits (walkedPath one chain) ↔
        workspace.KeepsLimits (walkedPath other chain))) {chain : Chain}
    (taken : chain ∈ workspace.takenChains (quietRules settings []) one base) :
    chain ∈ workspace.takenChains (quietRules settings []) other base ∧
      workspace.find (walkedPath one chain) = workspace.find (walkedPath other chain) := by
  have stands := Option.isSome_of_mem (find_eq_ok.mp here).2
  have filled := (reach_eq_ok.mp (find_eq_ok.mp here).1).2.1
  have filled' := (reach_eq_ok.mp (find_eq_ok.mp there).1).2.1
  -- What is taken has a wanted extension, which the root has no part in.
  obtain ⟨reached, passes⟩ := (mem_takenChains_iff stands).mp taken
  obtain ⟨visible, present⟩ := (isReached_of_quiet rfl stands).mp reached
  obtain ⟨wanted, leads, kept⟩ := isTaken_quietRules.mp passes
  cases chain with
  | nil =>
    -- The root itself is no file.
    rw [walkedPath, isFile, here] at leads
    simp at leads
  | cons name outer =>
    rw [extension?_walkedPath filled] at wanted
    have candidate : workspace.IsCandidate settings base (name :: outer) :=
      ⟨visible, present, name, outer, rfl, wanted⟩
    have within := keepsLimits_of_isFile leads
    have within' := (limits _ candidate).mp within
    have same := find_respelled here there _ within within'
    refine ⟨?_, same⟩
    have reached' : workspace.IsReached (quietRules settings []) other base (name :: outer) :=
      (isReached_of_quiet rfl stands).mpr ⟨visible, present⟩
    refine (mem_takenChains_iff stands).mpr ⟨reached', isTaken_quietRules.mpr ⟨?_, ?_, by simp⟩⟩
    · rwa [extension?_walkedPath filled']
    · rwa [isFile, same] at leads

/-- A source file is recorded alike from every spelling of its root. -/
theorem ofPath_respelled {read : SourceReader} (byPlace : workspace.ReadsPlaces read)
    (filled : one ≠ "") (filled' : other ≠ "") {chain : Chain}
    (leads : workspace.isFile (walkedPath one chain))
    (same : workspace.find (walkedPath one chain) = workspace.find (walkedPath other chain)) :
    FileOutcome.Alike (.ofPath one read (walkedPath one chain))
      (.ofPath other read (walkedPath other chain)) := by
  -- What is read depends on the place, and the path below the root on the chain.
  obtain ⟨found, leads⟩ : ∃ found, workspace.find (walkedPath one chain) = .ok found := by
    rw [isFile] at leads
    split at leads
    · exact ⟨_, ‹_›⟩
    · simp at leads
  have readAlike := byPlace leads (same ▸ leads)
  rw [FileOutcome.ofPath, FileOutcome.ofPath, ← readAlike, relative_walkedPath filled,
    relative_walkedPath filled']
  cases read (walkedPath one chain) with
  | ok content => exact .analyzed _
  | error cause => exact .failed _ _ _

/-- Source files are recorded alike, one by one, from every spelling of their root. -/
theorem forall₂_alike_respelled {read : SourceReader} (byPlace : workspace.ReadsPlaces read)
    (filled : one ≠ "") (filled' : other ≠ "") {chains : List Chain}
    (same : ∀ chain ∈ chains, workspace.isFile (walkedPath one chain) ∧
      workspace.find (walkedPath one chain) = workspace.find (walkedPath other chain)) :
    List.Forall₂ FileOutcome.Alike
      ((chains.map (walkedPath one)).map (.ofPath one read))
      ((chains.map (walkedPath other)).map (.ofPath other read)) := by
  -- Both lists are made from the same chains.
  rw [List.map_map, List.map_map, List.forall₂_map_left_iff, List.forall₂_map_right_iff,
    List.forall₂_same]
  intro chain member
  obtain ⟨leads, found⟩ := same chain member
  exact ofPath_respelled byPlace filled filled' leads found

/-- Spellings of one directory take the same chains in the same order. -/
theorem sortedChains_respelled (here : workspace.find one = .ok (base, .directory))
    (there : workspace.find other = .ok (base, .directory))
    (limits : ∀ chain, workspace.IsCandidate settings base chain →
      (workspace.KeepsLimits (walkedPath one chain) ↔
        workspace.KeepsLimits (walkedPath other chain))) :
    (workspace.takenChains (quietRules settings []) other base).mergeSort chainsInOrder =
      (workspace.takenChains (quietRules settings []) one base).mergeSort chainsInOrder := by
  -- No chain is listed twice, so that lists with the same chains are permutations.
  have stands := Option.isSome_of_mem (find_eq_ok.mp here).2
  have back := fun chain candidate => (limits chain candidate).symm
  have members : ∀ chain, chain ∈ workspace.takenChains (quietRules settings []) other base ↔
      chain ∈ workspace.takenChains (quietRules settings []) one base := by
    intro chain
    constructor
    · intro taken
      exact (takenChains_respelled there here back taken).1
    · intro taken
      exact (takenChains_respelled here there limits taken).1
  exact mergeSort_chainsInOrder_congr
    ((List.perm_ext_iff_of_nodup (nodup_takenChains stands) (nodup_takenChains stands)).mpr members)

/-- A scan gives the same registry from every spelling of its root, with the same failing paths,
when both or neither is a lone dash and the limits of paths and routes cut off the same entries. -/
theorem scan_respelled {read : SourceReader}
    (here : workspace.find one = .ok (base, .directory))
    (there : workspace.find other = .ok (base, .directory))
    (unfiltered : settings.ignored = []) (quiet : settings.respectGitignore = false)
    (byPlace : workspace.ReadsPlaces read)
    (dash : isStandardInput one = isStandardInput other)
    (limits : ∀ chain, workspace.IsCandidate settings base chain →
      (workspace.KeepsLimits (walkedPath one chain) ↔
        workspace.KeepsLimits (walkedPath other chain))) :
    ∃ registry failures, workspace.scan settings read one = .ok registry ∧
      workspace.scan settings read other = .ok (registry.withFailures failures) ∧
      failures.map Failure.path = registry.failures.map Failure.path := by
  have wellFormed : settings.ignored.mapM Glob.parse = .ok [] := by
    rw [unfiltered]
    rfl
  rw [Registry.scan_eq_map, Registry.scan_eq_map, sourceFiles_eq_walk quiet wellFormed,
    sourceFiles_eq_walk quiet wellFormed, walk_eq_ok here, walk_eq_ok there, ← dash]
  cases isStandardInput one with
  | true => exact ⟨_, _, rfl, rfl, rfl⟩
  | false =>
    rw [sortedChains_respelled here there limits]
    have filled := (reach_eq_ok.mp (find_eq_ok.mp here).1).2.1
    have filled' := (reach_eq_ok.mp (find_eq_ok.mp there).1).2.1
    -- Each chain that is taken leads to one file on both paths.
    have same : ∀ chain ∈
        (workspace.takenChains (quietRules settings []) one base).mergeSort chainsInOrder,
        workspace.isFile (walkedPath one chain) ∧
          workspace.find (walkedPath one chain) = workspace.find (walkedPath other chain) := by
      intro chain member
      have taken := List.mem_mergeSort.mp member
      have passes := (List.mem_filter.mp taken).2
      exact ⟨(isTaken_quietRules.mp passes).2.1, (takenChains_respelled here there limits taken).2⟩
    have alike := forall₂_alike_respelled byPlace filled filled' same
    obtain ⟨failures, equal, paths⟩ := Registry.ofOutcomes_alike alike
    exact ⟨_, failures, rfl, congrArg Except.ok equal, paths⟩

/-- A script in a directory to which a link leads, too. -/
def withShortcut : Workspace where
  tree := (withScript appName).tree.put ⟨"lib", by decide⟩ [] (.link "app")
  here := []

/-- The script is all that a walk can take from the directory. -/
theorem eq_of_isCandidate_withShortcut {chain : Chain}
    (candidate : withShortcut.IsCandidate {} [appName] chain) : chain = [scriptName] := by
  -- Nothing else has been put below the directory.
  have present := candidate.present
  obtain ⟨name, outer, rfl, _⟩ := candidate.wanted
  have script : (FileTree.empty.put appName [] .directory).Fits scriptName [appName] :=
    ⟨rfl, by decide⟩
  have shortcut : (withScript appName).tree.Fits ⟨"lib", by decide⟩ [] := ⟨rfl, by decide⟩
  have app : FileTree.empty.Fits appName [] := ⟨rfl, by decide⟩
  have deeper : name :: outer ++ [appName] ≠ [appName] := by simp
  have apart : name :: outer ++ [appName] ≠ [⟨"lib", by decide⟩] := by simp
  rw [withShortcut, FileTree.get?_put shortcut, if_neg apart, withScript,
    FileTree.get?_put script] at present
  split at present
  · rename_i same
    simpa using same
  · rw [FileTree.get?_put app, if_neg deeper] at present
    rw [FileTree.get?, FileNode.at?_eq_none (by simp) rfl] at present
    simp at present

/-- A directory and a link to it are scanned alike. -/
theorem scan_respelled_through_link :
    withShortcut.find "app" = .ok ([appName], .directory) ∧
      withShortcut.find "./lib/" = .ok ([appName], .directory) ∧
      ∃ registry failures, withShortcut.scan {} withShortcut.reader "app" = .ok registry ∧
        withShortcut.scan {} withShortcut.reader "./lib/" =
          .ok (registry.withFailures failures) ∧
        failures.map Failure.path = registry.failures.map Failure.path := by
  -- Both spellings lead to the directory, and its one candidate keeps the limits below either.
  have here : withShortcut.find "app" = .ok ([appName], .directory) := rfl
  have there : withShortcut.find "./lib/" = .ok ([appName], .directory) := rfl
  refine ⟨here, there, scan_respelled here there rfl rfl readsPlaces_reader (by decide) ?_⟩
  intro chain candidate
  obtain rfl := eq_of_isCandidate_withShortcut candidate
  exact iff_of_true ⟨by decide, by decide⟩ ⟨by decide, by decide⟩

/-- The name that is a lone dash. -/
def dashName : EntryName :=
  ⟨"-", by decide⟩

/-- A directory that is spelled as a lone dash is scanned as if it were empty, and behind a dot and
a slash it is not. -/
theorem scan_lone_dash :
    (withScript dashName).find "-" = .ok ([dashName], .directory) ∧
      (withScript dashName).find "./-" = .ok ([dashName], .directory) ∧
      ((withScript dashName).scan {} (withScript dashName).reader "-").map
        Registry.filesAnalyzed = .ok 0 ∧
      ((withScript dashName).scan {} (withScript dashName).reader "./-").map
        Registry.filesAnalyzed = .ok 1 := by
  have there : (withScript dashName).find "./-" = .ok ([dashName], .directory) := rfl
  have wellFormed : ({} : ScanSettings).ignored.mapM Glob.parse = .ok [] := rfl
  have taken : (withScript dashName).takenChains (quietRules {} []) "./-" [dashName] =
      [[scriptName]] := by decide
  refine ⟨rfl, there, rfl, ?_⟩
  -- From the other spelling the script is what the walk takes.
  rw [Registry.scan_eq_map, sourceFiles_eq_walk rfl wellFormed, walk_eq_ok there, taken,
    List.mergeSort_singleton]
  rfl

end Workspace

end Stocktake
