import Stocktake.Proofs.FileTree.Beside
import Stocktake.Proofs.FileTree.Creation
import Stocktake.Proofs.Walk.Spelling
import Stocktake.Settings.Starter

/-! A starter file is added to its directory and changes nothing else there, unless a link stands
under its name, for then the file is written where this leads. -/

namespace Stocktake

/-- A last name is what a path puts a file under. -/
theorem Approach.ofSteps_append_down (front : List Step) (name : EntryName) :
    ofSteps (front ++ [.down name]) = ⟨front, .down name, false⟩ := by
  -- The last step is neither a slash nor a dot, so nothing is passed over behind it.
  simp [ofSteps]

/-- A null in the path of a directory is in the paths of its entries, too. -/
theorem null_mem_walkedPath {root : String} (present : root ≠ "") {chain : Chain}
    (null : '\x00' ∈ root.toList) : '\x00' ∈ (walkedPath root chain).toList := by
  -- The path of the directory comes first, and loses at most a slash.
  by_cases deeper : chain = []
  · rwa [deeper]
  · obtain ⟨front, slash, shape⟩ | shape := toList_walkedPath present deeper
    · rw [slash] at null
      rw [shape]
      simp_all
    · rw [shape]
      exact List.mem_append_left _ null

/-- The name of a settings file, as that of an entry. -/
def settingsName : EntryName :=
  ⟨settingsFileName, isEntryName_settingsFileName⟩

/-- As a text it is the name that a search for settings looks for. -/
theorem text_settingsName : settingsName.text = settingsFileName :=
  -- The name was made of that text.
  rfl

namespace Workspace

variable {workspace : Workspace} {directory : String} {name : EntryName} {home : Location}

/-- A path leads to a directory at a place; the empty path to the one in which paths begin. -/
def LeadsTo (workspace : Workspace) (directory : String) (home : Location) : Prop :=
  if directory = "" then workspace.here = home ∧ workspace.tree.get? home = some .directory
  else workspace.find directory = .ok (home, .directory)

/-- The path of an entry puts a file under its name into the directory that is named before. -/
theorem putsAt_join_iff : workspace.PutsAt (Path.join directory name.text) name home ↔
    workspace.LeadsTo directory home ∧
      (Path.join directory name.text).utf8ByteSize < pathLimit := by
  by_cases present : directory = ""
  · have steps : Approach.ofSteps [.down name] = ⟨[], .down name, false⟩ :=
      Approach.ofSteps_append_down [] name
    have start : routeStart workspace.here name.text = workspace.here := by
      rw [routeStart, isAbsolute_text]
      rfl
    -- A slash stays where paths begin, when that is a directory.
    rw [present, join_empty, PutsAt, homeOf, stepsOf_text, steps, LeadsTo, if_pos rfl, reach_eq_ok,
      FileTree.follow_append_slash, start, FileTree.follow_eq_ok, FileTree.advance_nil]
    have null := name.null_not_mem
    have filled := name.valid.1
    simp [null, filled, and_comm]
  · obtain ⟨front, same, steps⟩ := stepsOf_walkedPath present (List.cons_ne_nil name [])
    have path : walkedPath directory [name] = Path.join directory name.text := by
      simp [walkedPath]
    have putting : Approach.ofSteps (front ++ stepsDown [name]) = ⟨front, .down name, false⟩ :=
      Approach.ofSteps_append_down front name
    -- With or without a slash behind it, the directory is where the steps before the name lead.
    have marked : ∀ start, workspace.tree.follow false linkLimit (front ++ [.slash]) start =
        .ok home ↔ workspace.tree.follow false linkLimit (stepsOf directory) start = .ok home ∧
          workspace.tree.get? home = some .directory := by
      intro start
      obtain same | same := same
      · rw [same, FileTree.follow_append_slash]
      · rw [same]
        exact ⟨fun ends => ⟨ends, (FileTree.follow_append_slash.mp ends).2⟩, And.left⟩
    rw [← path, PutsAt, homeOf, steps, putting, LeadsTo, if_neg present, find_eq_ok, reach_eq_ok,
      reach_eq_ok, routeStart_walkedPath present, marked]
    constructor
    · rintro ⟨⟨pure, _, short, followed, inside⟩, _⟩
      have shorter : directory.utf8ByteSize ≤ (walkedPath directory [name]).utf8ByteSize := by
        rw [path]
        exact Path.utf8ByteSize_directory_le_join directory (isAbsolute_text name)
      exact ⟨⟨⟨mt (null_mem_walkedPath present) pure, present, Nat.lt_of_le_of_lt shorter short,
        followed⟩, inside⟩, short⟩
    · rintro ⟨⟨⟨pure, _, _, followed⟩, inside⟩, short⟩
      exact ⟨⟨null_not_mem_walkedPath present pure _, walkedPath_ne_empty present _, short,
        followed, inside⟩, rfl, rfl⟩

/-- The bytes of a starter file. -/
def starterContent : Bytes :=
  utf8Encode starterText.toList

/-- The path of an entry has its name as the last step. -/
theorem approach_join (directory : String) (name : EntryName) :
    (Approach.ofSteps (stepsOf (Path.join directory name.text))).last = .down name ∧
      (Approach.ofSteps (stepsOf (Path.join directory name.text))).slashed = false := by
  -- The steps of the name come behind those of the directory.
  obtain ⟨front, steps⟩ := exists_stepsOf_join directory name
  rw [steps, Approach.ofSteps_append_down]
  exact ⟨rfl, rfl⟩

/-- A starter file has come to stand somewhere for a directory. -/
structure Starts (before after : Workspace) (directory : String) (force : Bool)
    (home place : Location) : Prop where
  /-- This is the place of the directory. -/
  named : before.LeadsTo directory home
  here : after.here = before.here
  /-- The file stands in the directory, unless a link stands there under its name. -/
  inside : place = settingsName :: home ↔
    ∀ target, before.tree.get? (settingsName :: home) ≠ some (.link target)
  /-- Without force it is new. -/
  fresh : force = false → before.tree.get? place = none
  free : before.tree.get? place ≠ some .directory
  /-- Every other entry is as it was, the link under its name among them. -/
  shown : ∀ other, after.tree.get? other =
    if other = place then some (.file starterContent) else before.tree.get? other

/-- A starter file is written through its path, unless something is found there and no force is
used. -/
theorem writeStarter_eq_ok {force : Bool} {path : String} {written : Workspace} :
    workspace.writeStarter directory force = .ok (path, written) ↔
      path = Path.join directory settingsFileName ∧
        (force = false → workspace.pathExists path = false) ∧
        workspace.write path starterContent = .ok written := by
  -- What is found at the path is asked for first, and only then the file is written.
  rw [writeStarter, ← starterContent]
  by_cases refused : (workspace.pathExists (Path.join directory settingsFileName) && !force) = true
  · rw [if_pos refused]
    refine ⟨nofun, ?_⟩
    rintro ⟨rfl, fresh, _⟩
    simp_all
  · rw [if_neg refused]
    have fresh : force = false →
        workspace.pathExists (Path.join directory settingsFileName) = false :=
      fun unforced => by simpa [unforced] using refused
    cases done : workspace.write (Path.join directory settingsFileName) starterContent with
    | error cause =>
      refine ⟨nofun, ?_⟩
      rintro ⟨rfl, _, wrote⟩
      cases done.symm.trans wrote
    | ok other =>
      simp only [Except.ok.injEq, Prod.mk.injEq]
      constructor
      · rintro ⟨rfl, rfl⟩
        exact ⟨rfl, fresh, done⟩
      · rintro ⟨rfl, _, wrote⟩
        exact ⟨rfl, Except.ok.inj (done.symm.trans wrote)⟩

/-- A starter file that is written stands where its path leads. -/
theorem starts_of_writeStarter {force : Bool} {path : String} {written : Workspace}
    (done : workspace.writeStarter directory force = .ok (path, written)) :
    path = Path.join directory settingsFileName ∧
      ∃ home place, Starts workspace written directory force home place := by
  obtain ⟨rfl, fresh, wrote⟩ := writeStarter_eq_ok.mp done
  obtain ⟨name, above, reached, free, rfl⟩ := write_eq_ok.mp wrote
  obtain ⟨last, bare⟩ := approach_join directory settingsName
  obtain ⟨inside, home, puts, same⟩ := place_of_reach last bare reached
  -- What is looked for at the path is looked for at the place where the file is created.
  have sought : workspace.reach false (Path.join directory settingsFileName)
      (stepsOf (Path.join directory settingsFileName)) = .ok (name :: above) := by
    obtain ⟨pure, present, short, followed⟩ := reach_eq_ok.mp reached
    exact reach_eq_ok.mpr ⟨pure, present, short, FileTree.follow_of_creates followed⟩
  refine ⟨rfl, home, name :: above, (putsAt_join_iff.mp puts).1, rfl, same, fun unforced => ?_,
    free, FileTree.get?_put ⟨inside, free⟩⟩
  have absent := fresh unforced
  rwa [pathExists_of_reach sought, Option.isSome_eq_false_iff, Option.isNone_iff_eq_none] at absent

/-- A starter file is written unless its path is too long or an entry is in the way. -/
theorem writeStarter_of_leadsTo {force : Bool} (leads : workspace.LeadsTo directory home)
    (short : (Path.join directory settingsFileName).utf8ByteSize < pathLimit)
    (free : ∀ entry, workspace.tree.get? (settingsName :: home) = some entry →
      force = true ∧ ∃ content, entry = .file content) :
    ∃ path written, workspace.writeStarter directory force = .ok (path, written) := by
  have puts : workspace.PutsAt (Path.join directory settingsFileName) settingsName home := by
    rw [← text_settingsName] at short ⊢
    exact putsAt_join_iff.mpr ⟨leads, short⟩
  have wrote : workspace.write (Path.join directory settingsFileName) starterContent =
      .ok (workspace.withEntry settingsName home (.file starterContent)) :=
    write_of_putsAt puts fun entry found => (free entry found).2
  refine ⟨_, _, writeStarter_eq_ok.mpr ⟨rfl, fun unforced => ?_, wrote⟩⟩
  -- Without force nothing stands under the name, not even a link.
  have absent : workspace.tree.get? (settingsName :: home) = none :=
    Option.eq_none_iff_forall_ne_some.mpr fun entry found => by
      have forced := (free entry found).1
      rw [unforced] at forced
      cases forced
  have reached := reach_of_putsAt puts (fun target link => by simp [absent] at link) false
  rw [pathExists_of_reach reached, absent, Option.isSome_none]

/-- A starter file that can be written for a directory is the only entry that changes, and it is new
unless force is used. It stands in the directory itself, except when a link stands there under its
name: then it stands where the link leads, the link remains, and nothing may have stood there if
force is not used. It can be written unless the directory is not there, its path is too long, or an
entry stands under the name already; with force, unless this is no file. -/
theorem writeStarter_effects (workspace : Workspace) (directory : String) (force : Bool) :
    match workspace.writeStarter directory force with
    -- A write that succeeds has the effects of one, and a failure has one of the causes.
    | .ok (path, written) => path = Path.join directory settingsFileName ∧
        ∃ home place, Starts workspace written directory force home place
    | .error _ => ∀ home, workspace.LeadsTo directory home →
        pathLimit ≤ (Path.join directory settingsFileName).utf8ByteSize ∨
          ∃ entry, workspace.tree.get? (settingsName :: home) = some entry ∧
            (force = true → ∀ content, entry ≠ .file content) := by
  cases done : workspace.writeStarter directory force with
  | ok result => exact starts_of_writeStarter done
  | error fault =>
    intro home leads
    -- With no cause left the file could have been written.
    by_contra clear
    simp only [not_or, not_exists, not_and, Nat.not_le] at clear
    obtain ⟨short, free⟩ := clear
    obtain ⟨path, written, wrote⟩ := writeStarter_of_leadsTo leads short fun entry found => by
      simpa using free entry found
    rw [done] at wrote
    cases wrote

/-- A directory in which a link with the name of a settings file leads to nothing. -/
def withDanglingSettings : Workspace where
  tree := FileTree.empty.put settingsName [] (.link "mine.toml")
  here := []

/-- A starter file is written without force where a link stands, and is another entry then. -/
theorem writeStarter_through_link :
    withDanglingSettings.tree.get? [settingsName] = some (.link "mine.toml") ∧
      withDanglingSettings.tree.get? [⟨"mine.toml", by decide⟩] = none ∧
      ∃ written, withDanglingSettings.writeStarter "." false = .ok ("./.migramap.toml", written) ∧
        written.tree.get? [⟨"mine.toml", by decide⟩] = some (.file starterContent) :=
  -- The link leads to a name that is free, where the file is then.
  ⟨rfl, rfl, _, rfl, rfl⟩

end Workspace

end Stocktake
