import Stocktake.Proofs.Registry.Failures
import Stocktake.Proofs.Settings.Discovery
import Stocktake.Proofs.Walk.Selection
import Stocktake.Run

/-! The outcome of a run is decided by the files to which the paths lead that it looks at. -/

namespace Stocktake

/-- The rules want a path, if it leads to a file. -/
def WalkRules.wants (rules : WalkRules) (path : String) : Bool :=
  (Path.extension? path).any rules.extensions.contains && !rules.ignored.any (·.matchesPath path)

namespace Workspace

variable {workspace other : Workspace} {rules : WalkRules} {root path : String} {base : Location}
  {entry : Entry}

/-- A path is taken when it is wanted and leads to a file. -/
theorem isTaken_eq_wants : workspace.isTaken rules path =
    (rules.wants path && workspace.isFile path) := by
  -- The conditions on the text of the path come on both sides of the one on the tree.
  rw [isTaken, WalkRules.wants, Bool.and_right_comm]

/-- A walk takes what it reaches under a path that it wants, if the path leads to a file. -/
theorem mem_takenChains_iff_wants (stands : (workspace.tree.get? base).isSome) {chain : Chain} :
    chain ∈ workspace.takenChains rules root base ↔
      workspace.IsReached rules root base chain ∧
        rules.wants (walkedPath root chain) = true ∧
          workspace.isFile (walkedPath root chain) = true := by
  -- A path is taken when it is wanted and leads to a file.
  rw [mem_takenChains_iff stands, isTaken_eq_wants, Bool.and_eq_true]

/-- A path leads to the same file in two workspaces, or to no file in both. -/
def LeadAlike (workspace other : Workspace) (path : String) : Prop :=
  ∀ place content, other.find path = .ok (place, .file content) ↔
    workspace.find path = .ok (place, .file content)

/-- A path leads to a file when it leads to one with some content. -/
theorem isFile_iff : workspace.isFile path = true ↔
    ∃ place content, workspace.find path = .ok (place, .file content) := by
  rw [isFile]
  split
  · rename_i place content found
    exact ⟨fun _ => ⟨place, content, found⟩, fun _ => rfl⟩
  · rename_i bare
    -- Anything else than a file has been ruled out.
    refine ⟨fun wrong => by simp at wrong, ?_⟩
    rintro ⟨place, content, found⟩
    exact absurd found (bare place content)

/-- What is read is the content of the file that a path leads to. -/
theorem read_eq_ok {content : Bytes} : workspace.read path = .ok content ↔
    ∃ place, workspace.find path = .ok (place, .file content) := by
  rw [read]
  cases found : workspace.find path with
  | error cause => simp [bind, Except.bind]
  | ok there =>
    obtain ⟨place, last⟩ := there
    -- Only a file has a content.
    cases last <;> simp [bind, Except.bind, pure, Except.pure, throw, throwThe, MonadExceptOf.throw]

namespace LeadAlike

/-- It does not count which of two workspaces is named first. -/
theorem symm (alike : workspace.LeadAlike other path) : other.LeadAlike workspace path :=
  -- The condition is an equivalence for each file.
  fun place content => (alike place content).symm

/-- A path that leads alike leads to a file in both workspaces or in none. -/
theorem isFile_eq (alike : workspace.LeadAlike other path) :
    other.isFile path = workspace.isFile path := by
  -- A path leads to a file when it leads to one with some content.
  rw [Bool.eq_iff_iff, isFile_iff, isFile_iff]
  exact exists_congr fun place => exists_congr fun content => alike place content

/-- From a path that leads alike the same is read. -/
theorem read_eq_ok_iff (alike : workspace.LeadAlike other path) {content : Bytes} :
    other.read path = .ok content ↔ workspace.read path = .ok content := by
  -- What is read is the content of the file that the path leads to.
  rw [read_eq_ok, read_eq_ok]
  exact exists_congr fun place => alike place content

/-- From a path that leads alike to a file, a source is read alike. -/
theorem reader_eq (alike : workspace.LeadAlike other path) (leads : workspace.isFile path = true) :
    other.reader path = workspace.reader path := by
  obtain ⟨place, content, found⟩ := isFile_iff.mp leads
  have mine : workspace.read path = .ok content := read_eq_ok.mpr ⟨place, found⟩
  -- The bytes are the same, and so is their text.
  rw [reader, reader, readSource, readSource, mine, alike.read_eq_ok_iff.mpr mine]

/-- From a path that leads alike, settings are read alike. -/
theorem settingsIn_eq_ok_iff (alike : workspace.LeadAlike other path) {settings : Settings} :
    other.settingsIn path = .ok settings ↔ workspace.settingsIn path = .ok settings := by
  have forth : ∀ {one another : Workspace}, one.LeadAlike another path →
      one.settingsIn path = .ok settings → another.settingsIn path = .ok settings := by
    intro one another alike usable
    obtain ⟨text, found, parsed⟩ := settingsIn_eq_ok.mp usable
    refine settingsIn_eq_ok.mpr ⟨text, ?_, parsed⟩
    -- The text is that of bytes, which are read from the other workspace, too.
    rw [readText] at found ⊢
    cases bytes : one.read path with
    | error cause => simp [bytes, bind, Except.bind] at found
    | ok content => rwa [alike.read_eq_ok_iff.mpr bytes, ← bytes]
  exact ⟨forth alike.symm, forth alike⟩

/-- A directory whose ignore file leads alike has the same rules for its members. -/
theorem ignoresWithin_eq {directory : String}
    (alike : rules.respectGitignore = true →
      workspace.LeadAlike other (Path.join directory ".gitignore"))
    (ignores : IgnoreStack) :
    other.ignoresWithin rules directory ignores =
      workspace.ignoresWithin rules directory ignores := by
  cases respected : rules.respectGitignore with
  | false => simp [ignoresWithin, respected]
  | true =>
    have same := @(alike respected).read_eq_ok_iff
    have rulesHere : other.ignoreRules directory = workspace.ignoreRules directory := by
      rw [ignoreRules, ignoreRules]
      cases mine : workspace.read (Path.join directory ".gitignore") with
      | ok content => rw [same.mpr mine]
      | error cause =>
        -- Where one workspace has nothing to read, the other has nothing, either.
        cases others : other.read (Path.join directory ".gitignore") with
        | error cause' => rfl
        | ok content => simp [same.mp others] at mine
    rw [ignoresWithin, ignoresWithin, rulesHere]

end LeadAlike

section Walk

/-- In each directory that a walk reaches in both workspaces, the ignore file leads alike. -/
def RulesAlike (workspace other : Workspace) (rules : WalkRules) (root : String)
    (base : Location) : Prop :=
  ∀ chain, rules.respectGitignore = true →
    workspace.IsReached rules root base chain → other.IsReached rules root base chain →
    workspace.tree.get? (chain ++ base) = some .directory →
    other.tree.get? (chain ++ base) = some .directory →
    workspace.LeadAlike other (Path.join (walkedPath root chain) ".gitignore")

/-- The same stands along a chain, from the root of a walk down. -/
def SameAlong (workspace other : Workspace) (base : Location) (chain : Chain) : Prop :=
  ∀ inner outer, chain = inner ++ outer →
    other.tree.get? (outer ++ base) = workspace.tree.get? (outer ++ base)

/-- It does not count which of two workspaces is named first. -/
theorem RulesAlike.symm (alike : workspace.RulesAlike other rules root base) :
    other.RulesAlike workspace rules root base :=
  -- Both workspaces reach the chain, which the condition asks for of either.
  fun chain respected reached reached' inside inside' =>
    (alike chain respected reached' reached inside' inside).symm

/-- It does not count which of two workspaces is named first. -/
theorem SameAlong.symm {chain : Chain} (same : workspace.SameAlong other base chain) :
    other.SameAlong workspace base chain :=
  -- The condition is an equation for each place along the chain.
  fun inner outer parts => (same inner outer parts).symm

/-- What is reached in one workspace is reached in the other, where the same stands on the chain. -/
theorem RulesAlike.isReached (alike : workspace.RulesAlike other rules root base) {chain : Chain}
    (same : workspace.SameAlong other base chain)
    (reached : workspace.IsReached rules root base chain) :
    other.IsReached rules root base chain ∧
      (workspace.tree.get? (chain ++ base) = some .directory →
        other.ignoresAt rules root chain = workspace.ignoresAt rules root chain) := by
  -- From the root down, each directory has the same rules for its members.
  induction chain with
  | nil =>
    have above : workspace.IsReached rules root base [] := trivial
    have above' : other.IsReached rules root base [] := trivial
    refine ⟨above', fun inside => ?_⟩
    have inside' := (same [] [] rfl).trans inside
    exact LeadAlike.ignoresWithin_eq
      (fun respected => alike [] respected above above' inside inside') []
  | cons name outer ih =>
    have through := reached
    obtain ⟨above, last, found, opened⟩ := through
    have home : workspace.tree.get? (outer ++ base) = some .directory :=
      FileTree.directory_of_isSome (Option.isSome_of_mem found)
    obtain ⟨above', rulesAbove⟩ := ih (fun inner outer parts => same (name :: inner) outer
      (by rw [parts, List.cons_append])) above
    have rulesHere := rulesAbove home
    have found' := (same [] _ rfl).trans found
    have reached' : other.IsReached rules root base (name :: outer) :=
      ⟨above', last, found', by rwa [rulesHere]⟩
    refine ⟨reached', fun inside => ?_⟩
    have inside' := (same [] _ rfl).trans inside
    rw [ignoresAt, ignoresAt, rulesHere]
    exact LeadAlike.ignoresWithin_eq
      (fun respected => alike _ respected reached reached' inside inside') _

/-- Two workspaces are walked alike from an entry at a root: ignore files lead alike, and so do the
paths that are taken in one of them, along chains on which the same stands. -/
structure WalksAlike (workspace other : Workspace) (rules : WalkRules) (root : String)
    (base : Location) : Prop where
  ignores : workspace.RulesAlike other rules root base
  forth : ∀ chain ∈ workspace.takenChains rules root base,
    workspace.SameAlong other base chain ∧ workspace.LeadAlike other (walkedPath root chain)
  back : ∀ chain ∈ other.takenChains rules root base,
    workspace.SameAlong other base chain ∧ workspace.LeadAlike other (walkedPath root chain)

namespace WalksAlike

/-- It does not count which of two workspaces is named first. -/
theorem symm (alike : workspace.WalksAlike other rules root base) :
    other.WalksAlike workspace rules root base where
  -- What is asked of files taken in one workspace is asked of those of the other, too.
  ignores := alike.ignores.symm
  forth chain taken := (alike.back chain taken).imp SameAlong.symm LeadAlike.symm
  back chain taken := (alike.forth chain taken).imp SameAlong.symm LeadAlike.symm

/-- What is taken in one workspace is taken in the other. -/
theorem takenChains_subset (alike : workspace.WalksAlike other rules root base)
    (stands : (workspace.tree.get? base).isSome) (stands' : (other.tree.get? base).isSome) :
    workspace.takenChains rules root base ⊆ other.takenChains rules root base := by
  intro chain taken
  obtain ⟨same, leads⟩ := alike.forth chain taken
  obtain ⟨reached, wanted, isFile⟩ := (mem_takenChains_iff_wants stands).mp taken
  -- The chain is reached because the same stands on it, and its path leads to a file there, too.
  exact (mem_takenChains_iff_wants stands').mpr
    ⟨(alike.ignores.isReached same reached).1, wanted, leads.isFile_eq.trans isFile⟩

end WalksAlike

/-- A walk lists the same files, and they are read alike; a lone dash has none. -/
theorem walk_eq_of_walksAlike (here : workspace.find root = .ok (base, entry))
    (here' : other.find root = .ok (base, entry))
    (alike : isStandardInput root = false → workspace.WalksAlike other rules root base) :
    other.walk rules root = workspace.walk rules root ∧
      ∀ files, workspace.walk rules root = .ok files → ∀ file ∈ files,
        other.reader file = workspace.reader file := by
  rw [walk_eq_ok here, walk_eq_ok here']
  cases walked : isStandardInput root with
  | true =>
    refine ⟨rfl, fun files listed file member => ?_⟩
    rw [← Except.ok.inj listed] at member
    cases member
  | false =>
    have alike := alike walked
    have stands := Option.isSome_of_mem (find_eq_ok.mp here).2
    have stands' := Option.isSome_of_mem (find_eq_ok.mp here').2
    -- The same chains are taken in both workspaces, each once, and a sort puts them in one order.
    have members : ∀ chain, chain ∈ other.takenChains rules root base ↔
        chain ∈ workspace.takenChains rules root base := fun chain =>
      ⟨fun taken => alike.symm.takenChains_subset stands' stands taken,
        fun taken => alike.takenChains_subset stands stands' taken⟩
    have permuted := (List.perm_ext_iff_of_nodup (nodup_takenChains stands')
      (nodup_takenChains stands)).mpr members
    refine ⟨by rw [mergeSort_chainsInOrder_congr permuted], fun files listed file member => ?_⟩
    rw [← Except.ok.inj listed] at member
    obtain ⟨chain, inside, rfl⟩ := List.mem_map.mp member
    have taken := List.mem_mergeSort.mp inside
    -- What is taken is a file.
    have isFile := ((mem_takenChains_iff_wants stands).mp taken).2.2
    exact (alike.forth chain taken).2.reader_eq isFile

/-- A walk that lists files has found its root. -/
theorem exists_find_of_walk {files : List String} (listed : workspace.walk rules root = .ok files) :
    ∃ base entry, workspace.find root = .ok (base, entry) := by
  -- A root that is not found makes the walk fail.
  cases here : workspace.find root with
  | ok there => exact ⟨there.1, there.2, rfl⟩
  | error cause =>
    rw [walk, here] at listed
    cases listed

end Walk

/-- The paths at which a search for settings looks: it ends at the first usable file. -/
def settingsPaths (workspace : Workspace) : List String → List String
  | [] => []
  | directory :: farther =>
    Path.join directory settingsFileName ::
      -- A file that holds no settings does not end the search.
      match workspace.settingsIn (Path.join directory settingsFileName) with
      | .ok _ => []
      | .error _ => workspace.settingsPaths farther

/-- A search for settings looks at the same paths and has the same end when they lead alike. -/
theorem firstSettings?_eq_of_alike {directories : List String}
    (alike : ∀ path ∈ workspace.settingsPaths directories, workspace.LeadAlike other path) :
    other.firstSettings? directories = workspace.firstSettings? directories ∧
      other.settingsPaths directories = workspace.settingsPaths directories := by
  -- A search goes on to the farther directories in both workspaces, or in neither.
  induction directories with
  | nil => exact ⟨rfl, rfl⟩
  | cons directory farther ih =>
    rw [firstSettings?, firstSettings?, settingsPaths, settingsPaths]
    rw [settingsPaths] at alike
    have nearest := @(alike _ List.mem_cons_self).settingsIn_eq_ok_iff
    cases mine : workspace.settingsIn (Path.join directory settingsFileName) with
    | ok settings =>
      rw [nearest.mpr mine]
      exact ⟨rfl, rfl⟩
    | error cause =>
      cases others : other.settingsIn (Path.join directory settingsFileName) with
      | ok settings => simp [nearest.mp others] at mine
      | error cause' =>
        rw [mine] at alike
        obtain ⟨ends, looked⟩ := ih fun path member => alike path (List.mem_cons_of_mem _ member)
        exact ⟨ends, congrArg _ looked⟩

/-- The paths at which a run looks for its settings. -/
inductive LooksForSettings (workspace : Workspace) (request : RunRequest) : String → Prop
  | named {path : String} (asked : request.settingsFile = some path) :
      LooksForSettings workspace request path
  | nearest {path : String} (unasked : request.settingsFile = none)
      (looked : path ∈ workspace.settingsPaths
        (Path.ancestors searchDepth (pathTo workspace.here))) :
      LooksForSettings workspace request path

/-- The paths at which a walk looks: its root, the ignore files of directories that it reaches, and
what it reaches under a path that it wants. -/
inductive WalkLooks (workspace : Workspace) (rules : WalkRules) (root : String) : String → Prop
  | root : WalkLooks workspace rules root root
  | ignoreFile {base : Location} {entry : Entry} {chain : Chain}
      (here : workspace.find root = .ok (base, entry)) (walked : isStandardInput root = false)
      (respected : rules.respectGitignore = true)
      (reached : workspace.IsReached rules root base chain)
      (inside : workspace.tree.get? (chain ++ base) = some .directory) :
      WalkLooks workspace rules root (Path.join (walkedPath root chain) ".gitignore")
  | source {base : Location} {entry : Entry} {chain : Chain}
      (here : workspace.find root = .ok (base, entry)) (walked : isStandardInput root = false)
      (reached : workspace.IsReached rules root base chain)
      (wanted : rules.wants (walkedPath root chain) = true) :
      WalkLooks workspace rules root (walkedPath root chain)

/-- The paths at which a run looks before it writes: those of its settings and of its walk. -/
inductive RunLooks (workspace : Workspace) (request : RunRequest) : String → Prop
  | settings {path : String} (looks : workspace.LooksForSettings request path) :
      RunLooks workspace request path
  | walk {settings : Settings} {rules : WalkRules} {path : String}
      (chosen : workspace.runSettings request = .ok settings)
      (parsed : WalkRules.ofSettings settings.scan = .ok rules)
      (looks : workspace.WalkLooks rules request.root path) : RunLooks workspace request path

section Run

variable {request : RunRequest} {settings : Settings}

/-- A run for which a settings file is named looks at no other. -/
theorem looksForSettings_of_named {named : String} (asked : request.settingsFile = some named) :
    workspace.LooksForSettings request path ↔ path = named := by
  constructor
  · -- A search is made only where no file is named.
    intro looks
    cases looks with
    | named again => exact Option.some.inj (again.symm.trans asked)
    | nearest unasked _ => simp [asked] at unasked
  · rintro rfl
    exact .named asked

/-- A run for which no settings file is named looks where its search does. -/
theorem looksForSettings_of_unnamed (unasked : request.settingsFile = none) :
    workspace.LooksForSettings request path ↔
      path ∈ workspace.settingsPaths (Path.ancestors searchDepth (pathTo workspace.here)) := by
  refine ⟨fun looks => ?_, .nearest unasked⟩
  -- There is no named file to look at.
  cases looks with
  | named asked => simp [unasked] at asked
  | nearest _ looked => exact looked

/-- A run looks at the same paths for its settings and finds the same ones when they lead alike. -/
theorem runSettings_eq_of_alike (here : other.here = workspace.here)
    (alike : ∀ path, workspace.LooksForSettings request path → workspace.LeadAlike other path) :
    (∀ settings, other.runSettings request = .ok settings ↔
        workspace.runSettings request = .ok settings) ∧
      ∀ path, other.LooksForSettings request path ↔ workspace.LooksForSettings request path := by
  cases asked : request.settingsFile with
  | some named =>
    -- The named file is looked at in any case.
    refine ⟨fun settings => ?_, fun path => ?_⟩
    · have same := @(alike named (.named asked)).settingsIn_eq_ok_iff
      rw [runSettings, runSettings, asked]
      dsimp only
      rw [mapError_eq_ok, mapError_eq_ok]
      exact same
    · rw [looksForSettings_of_named asked, looksForSettings_of_named asked]
  | none =>
    -- Both searches begin at the working directory.
    obtain ⟨ends, looked⟩ := firstSettings?_eq_of_alike fun path member =>
      alike path (.nearest asked member)
    refine ⟨fun settings => ?_, fun path => ?_⟩
    · rw [runSettings, runSettings, asked]
      dsimp only
      rw [discoverSettings, discoverSettings, settingsFrom, settingsFrom, here, ends]
    · rw [looksForSettings_of_unnamed asked, looksForSettings_of_unnamed asked, here, looked]

/-- A run has the same outcome when its walk lists the same files and they are read alike. -/
theorem evaluate_eq_of_walk
    (walks : ∀ rules, WalkRules.ofSettings settings.scan = .ok rules →
      other.walk rules request.root = workspace.walk rules request.root ∧
        ∀ files, workspace.walk rules request.root = .ok files → ∀ file ∈ files,
          other.reader file = workspace.reader file) :
    other.evaluate .direct settings request = workspace.evaluate .direct settings request := by
  have scanned : other.scan settings.scan other.reader request.root =
      workspace.scan settings.scan workspace.reader request.root := by
    rw [Registry.scan_eq_map, Registry.scan_eq_map]
    cases parsed : WalkRules.ofSettings settings.scan with
    | error flaw =>
      rw [sourceFiles, sourceFiles, parsed]
      rfl
    | ok rules =>
      obtain ⟨listed, read⟩ := walks rules parsed
      rw [sourceFiles_of_rules parsed, sourceFiles_of_rules parsed, listed]
      cases found : workspace.walk rules request.root with
      | error cause => rfl
      | ok files =>
        -- The same files are listed, and each of them is read alike.
        have outcomes : files.map (FileOutcome.ofPath request.root other.reader) =
            files.map (FileOutcome.ofPath request.root workspace.reader) := by
          refine List.map_congr_left fun file member => ?_
          rw [FileOutcome.ofPath, FileOutcome.ofPath, read files found file member]
        exact congrArg (fun outcomes => Except.ok (Registry.ofOutcomes outcomes)) outcomes
  rw [evaluate, evaluate]
  simp only [Access.direct, scanned]

end Run

end Workspace

end Stocktake
