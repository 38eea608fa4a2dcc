import Stocktake.Proofs.Path.Relative
import Stocktake.Proofs.Registry.Order
import Stocktake.Proofs.Walk.Respelling

/-! A scan records each file under a path of its own, which leads down to it from the root. -/

namespace Stocktake

/-- A path that goes down names, and nothing else. -/
def Path.LeadsDown (path : String) : Prop :=
  path ≠ "" ∧ ∀ component ∈ components path, ∃ name : EntryName, component = .name name.text

/-- Below one root, paths in strict order differ also when they are relative to it. -/
theorem Path.nodup_map_relative {root : String} {paths : List String}
    (ordered : paths.Pairwise Path.Precedes)
    (leads : ∀ path ∈ paths, components root <+: components path) :
    (paths.map (relative root)).Nodup := by
  refine List.pairwise_map.mpr (ordered.imp_of_mem ?_)
  intro path path' member member' before same
  -- The order sees nothing but the components, which would be the same.
  have alike := components_eq_of_relative_eq (leads path member) (leads path' member') same
  refine before.asymm ?_
  rw [Precedes, alike] at before ⊢
  exact before

/-- The constructs of an analysis have its path. -/
theorem Analysis.path_of_mem_constructs {path content : String} {found : Category × Construct}
    (member : found ∈ (ofContent path content).constructs) : found.2.path = path := by
  -- Each declaration of a file becomes a construct with the path of the whole.
  obtain ⟨declaration, _, rfl⟩ := List.mem_map.mp member
  rfl

namespace Registry

/-- A registry names a path in one of its constructs or of its failures. -/
def Names (registry : Registry) (path : String) : Prop :=
  (∃ category, ∃ construct ∈ registry.collection category, construct.path = path) ∨
    ∃ failure ∈ registry.failures, failure.path = path

/-- The constructs of a file have its path below the root. -/
theorem path_of_mem_constructs {root path : String} {read : SourceReader}
    {found : Category × Construct}
    (member : found ∈ (FileOutcome.ofPath root read path).constructs) :
    found.2.path = Path.relative root path := by
  -- A file that could not be read has no constructs.
  rw [FileOutcome.ofPath] at member
  split at member
  · exact Analysis.path_of_mem_constructs member
  · cases member

/-- The failure of a file has its path below the root. -/
theorem path_of_failure? {root path : String} {read : SourceReader} {failure : Failure}
    (failed : (FileOutcome.ofPath root read path).failure? = some failure) :
    failure.path = Path.relative root path := by
  -- A file that was read has no failure.
  rw [FileOutcome.ofPath] at failed
  split at failed
  · cases failed
  · rw [← Option.some.inj failed]

/-- A registry of files names nothing but their paths below the root. -/
theorem mem_of_names_ofFiles {root recorded : String} {read : SourceReader} {paths : List String}
    (named : (ofFiles root read paths).Names recorded) :
    recorded ∈ paths.map (Path.relative root) := by
  obtain ⟨category, construct, member, rfl⟩ | ⟨failure, member, rfl⟩ := named
  · -- A construct has been brought by a file.
    rw [ofFiles, (holds_ofOutcomes _).collection] at member
    obtain ⟨found, kept, rfl⟩ := List.mem_map.mp member
    obtain ⟨outcome, among, brought⟩ := List.mem_flatMap.mp (List.mem_filter.mp kept).1
    obtain ⟨path, listed, rfl⟩ := List.mem_map.mp among
    exact List.mem_map.mpr ⟨path, listed, (path_of_mem_constructs brought).symm⟩
  · -- A failure has been brought by a file that could not be read.
    rw [ofFiles_eq_withFailures] at member
    obtain ⟨outcome, among, failed⟩ := List.mem_filterMap.mp member
    obtain ⟨path, listed, rfl⟩ := List.mem_map.mp among
    exact List.mem_map.mpr ⟨path, listed, (path_of_failure? failed).symm⟩

end Registry

namespace Workspace

variable {workspace : Workspace} {settings : ScanSettings} {rules : WalkRules} {root : String}
  {base : Location} {entry : Entry}

/-- The path of a chain below its root leads down the names of the chain. -/
theorem leadsDown_walkedPath (present : root ≠ "") {chain : Chain} (deeper : chain ≠ []) :
    Path.LeadsDown (Path.relative root (walkedPath root chain)) ∧
      walkedPath root chain = Path.join root (Path.relative root (walkedPath root chain)) := by
  -- Behind the root there are the names of the chain, of which there is one at least.
  have names := Path.components_relative root (walkedPath root chain)
  rw [Path.componentsBelow_of_append (components_walkedPath present chain)] at names
  refine ⟨⟨fun empty => ?_, fun component member => ?_⟩, ?_⟩
  · rw [empty] at names
    have none : namesOf chain = [] := names.symm
    simp [namesOf, deeper] at none
  · rw [names] at member
    obtain ⟨name, _, rfl⟩ := List.mem_map.mp member
    exact ⟨name, rfl⟩
  · rw [relative_walkedPath present]
    cases chain with
    | nil => exact absurd rfl deeper
    | cons name outer => rfl

/-- A walk from a directory takes no root, and one from anything else takes nothing below it. -/
theorem eq_nil_iff_of_taken (here : workspace.find root = .ok (base, entry)) {chain : Chain}
    (taken : chain ∈ workspace.takenChains rules root base) : chain = [] ↔ entry ≠ .directory := by
  have stands := (find_eq_ok.mp here).2
  obtain ⟨reached, passes⟩ := (mem_takenChains_iff (Option.isSome_of_mem stands)).mp taken
  constructor
  · rintro rfl rfl
    have leads := (Bool.and_eq_true_iff.mp (Bool.and_eq_true_iff.mp passes).1).2
    rw [walkedPath, isFile, here] at leads
    simp at leads
  · intro bare
    refine Decidable.byContradiction fun deeper => bare ?_
    -- Only a directory has something below it.
    have present := reached.present (Option.isSome_of_mem stands)
    have above := (FileTree.end_or_directory present (List.append_nil chain).symm).resolve_left deeper
    exact Option.some.inj (stands.symm.trans above)

/-- A scan names each file by its path below the root and no two files alike. From a directory these
paths are not empty and lead down to the files; from a root that is a file itself nothing is left of
its path. The names of a workspace are texts, so that their bytes are UTF-8; another path of bytes
below the root is named as one of the files when it is shown with the components of the file. -/
theorem scan_record_paths (read : SourceReader)
    (wellFormed : WalkRules.ofSettings settings = .ok rules)
    (here : workspace.find root = .ok (base, entry)) :
    ∃ files registry, workspace.sourceFiles settings root = .ok files ∧
      workspace.scan settings read root = .ok registry ∧
      (∀ recorded, registry.Names recorded → recorded ∈ files.map (Path.relative root)) ∧
      (files.map (Path.relative root)).Nodup ∧
      (∀ path ∈ files, Path.relative root path = "" ↔ entry ≠ .directory) ∧
      (entry = .directory → ∀ path ∈ files, Path.LeadsDown (Path.relative root path) ∧
        path = Path.join root (Path.relative root path)) ∧
      (entry ≠ .directory → ∀ path ∈ files, path = root) ∧
      ∀ path ∈ files, ∀ other : Bytes,
        Path.byteComponents (Path.bytesOf root) <+: Path.byteComponents other →
        (Path.relativeBytes (Path.bytesOf root) other = Path.relative root path ↔
          Path.shownComponents other = Path.components path) := by
  obtain ⟨files, listed, members, ordered⟩ := exists_files wellFormed here
  have present := (reach_eq_ok.mp (find_eq_ok.mp here).1).2.1
  have scanned : workspace.scan settings read root = .ok (Registry.ofFiles root read files) := by
    rw [Registry.scan_eq_map, listed]
    rfl
  have distinct : (files.map (Path.relative root)).Nodup := by
    refine Path.nodup_map_relative ordered fun path member => ?_
    obtain ⟨_, chain, _, rfl⟩ := (members path).mp member
    exact ⟨_, (components_walkedPath present chain).symm⟩
  -- What is left of a path behind the root is told by the names of its chain.
  refine ⟨files, _, listed, scanned, fun _ => Registry.mem_of_names_ofFiles, distinct, ?_, ?_, ?_, ?_⟩
  · intro path member
    obtain ⟨_, chain, taken, rfl⟩ := (members path).mp member
    rw [← eq_nil_iff_of_taken here taken]
    constructor
    · intro empty
      refine Decidable.byContradiction fun deeper => ?_
      exact (leadsDown_walkedPath present deeper).1.1 empty
    · rintro rfl
      rw [relative_walkedPath present]
      rfl
  · intro directory path member
    obtain ⟨_, chain, taken, rfl⟩ := (members path).mp member
    refine leadsDown_walkedPath present fun empty => ?_
    exact (eq_nil_iff_of_taken here taken).mp empty directory
  · intro bare path member
    obtain ⟨_, chain, taken, rfl⟩ := (members path).mp member
    rw [(eq_nil_iff_of_taken here taken).mpr bare, walkedPath]
  · intro path member other leads
    obtain ⟨_, chain, taken, rfl⟩ := (members path).mp member
    rw [← Path.shownComponents_bytesOf]
    -- The root leads to the file by its bytes as it does by its text.
    have down : Path.byteComponents (Path.bytesOf root) <+:
        Path.byteComponents (Path.bytesOf (walkedPath root chain)) := by
      rw [Path.byteComponents_bytesOf, Path.byteComponents_bytesOf,
        components_walkedPath present chain, List.map_append]
      exact List.prefix_append _ _
    exact Path.relativeBytes_eq_iff leads down

/-- A script below a directory is recorded under a path that leads down to it. -/
theorem scan_record_paths_app :
    WalkRules.ofSettings {} = .ok (quietRules {} []) ∧
      (withScript appName).find "app" = .ok ([appName], .directory) ∧
      ∃ files registry, (withScript appName).sourceFiles {} "app" = .ok files ∧
        (withScript appName).scan {} (withScript appName).reader "app" = .ok registry ∧
        (∀ recorded, registry.Names recorded → recorded ∈ files.map (Path.relative "app")) ∧
        (files.map (Path.relative "app")).Nodup ∧
        ∀ path ∈ files, Path.LeadsDown (Path.relative "app" path) := by
  -- The root is found, and the rules are those of the default settings.
  have here : (withScript appName).find "app" = .ok ([appName], .directory) := rfl
  have wellFormed : WalkRules.ofSettings {} = .ok (quietRules {} []) := rfl
  obtain ⟨files, registry, listed, scanned, named, distinct, _, down, _⟩ :=
    scan_record_paths (withScript appName).reader wellFormed here
  exact ⟨wellFormed, here, files, registry, listed, scanned, named, distinct,
    fun path member => (down rfl path member).1⟩

/-- A workspace with a component in a script of its own. -/
def withLoneComponent : Workspace :=
  withSource scriptName (utf8Encode "a.component('b')".toList)

/-- A component in a script that is the root itself is recorded under an empty path. -/
theorem scan_single_file :
    withLoneComponent.sourceFiles {} "a.js" = .ok ["a.js"] ∧ Path.relative "a.js" "a.js" = "" ∧
      ∃ registry, withLoneComponent.scan {} withLoneComponent.reader "a.js" = .ok registry ∧
        registry.Names "" := by
  -- The walk takes the file that it starts from, and there is nothing below it.
  have wellFormed : WalkRules.ofSettings {} = .ok (quietRules {} []) := rfl
  have here : withLoneComponent.find "a.js" =
      .ok ([scriptName], .file (utf8Encode "a.component('b')".toList)) := rfl
  have taken : withLoneComponent.takenChains (quietRules {} []) "a.js" [scriptName] = [[]] := by
    decide
  have listed : withLoneComponent.sourceFiles {} "a.js" = .ok ["a.js"] := by
    rw [sourceFiles_of_rules wellFormed, walk_eq_ok here, taken, List.mergeSort_singleton]
    rfl
  refine ⟨listed, by decide, _, by rw [Registry.scan_eq_map, listed]; rfl, ?_⟩
  exact .inl ⟨.component, by decide +kernel⟩

end Workspace

end Stocktake
