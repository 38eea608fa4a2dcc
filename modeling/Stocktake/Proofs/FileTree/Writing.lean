import Stocktake.Proofs.FileTree.Beside
import Stocktake.Proofs.FileTree.Staging
import Stocktake.Run

/-! A write changes the entry that its path names and nothing beside it, except that directories are
made on the way there; one that fails has made such directories at most. -/

namespace Stocktake

namespace Workspace

variable {before ready after : Workspace} {path : String} {paths : List String}
  {name : EntryName} {home : Location} {content : Bytes}

/-- The directory in which the last step of a path is taken stays the same when others are made. -/
theorem Grows.homeOf (grows : before.Grows ready paths) (found : before.homeOf path = .ok home) :
    ready.homeOf path = .ok home := by
  have inside := directory_of_homeOf found
  obtain ⟨null, present, short, followed⟩ := reach_eq_ok.mp found
  -- All directories and links on the way to it are still there.
  have kept := FileTree.follow_of_kept (fun stood _ => grows.kept stood) followed inside
  rw [← grows.here] at kept
  exact reach_eq_ok.mpr ⟨null, present, short, kept⟩

/-- Where something other than a directory stands in the end, it has stood from the beginning. -/
theorem Grows.stood (grows : before.Grows ready paths) {place : Location} {entry : Entry}
    (stands : ready.tree.get? place = some entry) (solid : entry ≠ .directory) :
    before.tree.get? place = some entry := by
  -- A place at which nothing stood has a directory now, and any other has kept its entry.
  cases early : before.tree.get? place with
  | none => exact absurd (grows.added early stands).1 solid
  | some old => rw [← grows.kept early, stands]

/-- A file has come to stand where a path puts it. Between the two workspaces stands a third one,
in which the directories that the path needs have been made and the file is still to come. -/
structure Stores (before ready after : Workspace) (path : String) (content : Bytes)
    (name : EntryName) (home : Location) : Prop where
  made : before.Grows ready (parentsOf path)
  /-- The file has the last name of the path, in the directory to which the steps before lead. -/
  named : ready.PutsAt path name home
  /-- When these steps led to a directory from the beginning, it is this one. -/
  resolved : ∀ place, before.homeOf path = .ok place → place = home
  here : after.here = before.here
  stands : after.tree.get? (name :: home) = some (.file content)
  /-- A file or a link gives way, and a directory does not. -/
  free : before.tree.get? (name :: home) ≠ some .directory
  /-- Every other entry is still the same, the target of a link that gave way among them. -/
  kept : ∀ place entry, place ≠ name :: home → before.tree.get? place = some entry →
    after.tree.get? place = some entry
  /-- Every other entry that is new is a directory to which the path needs a way. -/
  added : ∀ place entry, place ≠ name :: home → before.tree.get? place = none →
    after.tree.get? place = some entry →
      entry = .directory ∧ ∃ parent ∈ parentsOf path, ready.find parent = .ok (place, .directory)
  /-- The path leads to the file, unless a link gave way that the path itself may have taken. -/
  leads : (∀ target, before.tree.get? (name :: home) ≠ some (.link target)) →
    after.read path = .ok content

/-- A file that is installed once the directories are made has come to stand where its path puts
it. -/
theorem Grows.stores (grows : before.Grows ready (parentsOf path))
    (installed : ready.install path content = .ok after) :
    ∃ name home, Stores before ready after path content name home := by
  obtain ⟨name, home, puts, free, rfl⟩ := install_eq_ok installed
  have fits : ready.tree.Fits name home := ⟨directory_of_homeOf puts.1, free⟩
  -- The file is all in which the last step differs from the one before.
  have shown : ∀ place, (ready.withEntry name home (.file content)).tree.get? place =
      if place = name :: home then some (.file content) else ready.tree.get? place :=
    FileTree.get?_put fits
  refine ⟨name, home, ?_⟩
  constructor
  case made => exact grows
  case named => exact puts
  case resolved =>
    -- The directories that were made are not on the way there, or it would not have led anywhere.
    intro place found
    exact Except.ok.inj ((grows.homeOf found).symm.trans puts.1)
  case here => exact grows.here
  case stands => rw [shown, if_pos rfl]
  case free =>
    -- A directory would be there still.
    intro directory
    exact free (grows.kept directory)
  case kept =>
    intro place entry apart stood
    rw [shown, if_neg apart]
    exact grows.kept stood
  case added =>
    intro place entry apart absent present
    rw [shown, if_neg apart] at present
    exact grows.added absent present
  case leads =>
    intro solid
    apply read_withEntry puts free
    -- No link can have come with the directories.
    intro target link
    exact solid target (grows.stood link (by simp))

end Workspace

namespace WriteMode

variable {mode : WriteMode} {workspace : Workspace} {path : String} {name : EntryName}
  {home : Location} {content : Bytes}

/-- Neither the device nor an entry of the directory prevents a temporary file. -/
def Undisturbed (mode : WriteMode) (workspace : Workspace) (home : Location) : Prop :=
  match mode with
  -- As one step a content is written whatever names are taken.
  | .whole => True
  | .staged temporary filling =>
    filling = .complete ∧ workspace.tree.get? (temporary :: home) = none
  | .refused _ => False

/-- A write that is not disturbed puts a file where its path puts it, unless a directory is in the
way or there is no room for the path of a temporary file. -/
theorem perform_of_putsAt (undisturbed : mode.Undisturbed workspace home)
    (puts : workspace.PutsAt path name home)
    (free : workspace.tree.get? (name :: home) ≠ some .directory)
    (room : (workspace.stagingPath (Workspace.stagingDirectory path)).utf8ByteSize < pathLimit) :
    mode.perform workspace path content =
      (.ok (), workspace.withEntry name home (.file content)) := by
  have replaced : workspace.replace path content =
      (.ok (), workspace.withEntry name home (.file content)) :=
    Workspace.replace_of_putsAt puts free room
  -- By way of a temporary file the same comes out as in one step.
  cases mode with
  | whole => exact replaced
  | staged temporary filling =>
    obtain ⟨rfl, absent⟩ := undisturbed
    rw [perform, Workspace.replaceThrough_complete, replaced]
    -- The temporary file comes into the directory in which its name is free.
    rw [Workspace.prepare_of_putsAt puts room, Workspace.find_stagingDirectory puts room]
    rintro _ ⟨⟩
    exact absent
  | refused cause => exact undisturbed.elim

/-- However a text is written, with a temporary file of any name that may be filled or not, the
write either succeeds, and then the entry that the path names is a file with the whole text, and no
other entry is lost, changed or new except for directories that the path needs; or it fails with a
fault of its path, and then no entry is lost or changed, and nothing is new except for such
directories. A temporary file remains in neither case, as it would be one more new file.

A write that is not disturbed, whose path puts a file into a directory that is there, fails only
when a directory stands where the file is to stand, or when there is no room for the path of a
temporary file. -/
theorem write_effects (mode : WriteMode) (workspace : Workspace) (path text : String) :
    match mode.write workspace path text with
    | (.ok (), written) => ∃ ready name home,
        Workspace.Stores workspace ready written path (utf8Encode text.toList) name home
    | (.error fault, left) => (∃ cause, fault = .artifactWrite path cause) ∧
        workspace.Grows left (Workspace.parentsOf path) ∧
        ∀ name home, workspace.PutsAt path name home → mode.Undisturbed workspace home →
          workspace.tree.get? (name :: home) = some .directory ∨
            pathLimit ≤ (workspace.stagingPath (Workspace.stagingDirectory path)).utf8ByteSize := by
  rw [write]
  cases performed : mode.perform workspace path (utf8Encode text.toList) with
  | mk outcome left =>
    cases outcome with
    | ok _ =>
      -- The content has been installed in what the preparation of the path has left.
      obtain ⟨ready, prepared, installed⟩ := perform_eq_ok performed
      have grows := workspace.grows_prepare path
      rw [prepared] at grows
      obtain ⟨name, home, stores⟩ := grows.stores installed
      exact ⟨ready, name, home, stores⟩
    | error cause =>
      refine ⟨⟨cause, rfl⟩, grows_of_perform_eq_error performed, ?_⟩
      intro name home puts undisturbed
      by_contra clear
      obtain ⟨free, room⟩ := not_or.mp clear
      -- Otherwise the write would have succeeded.
      have stored : mode.perform workspace path (utf8Encode text.toList) = (.ok (), _) :=
        perform_of_putsAt undisturbed puts free (Nat.lt_of_not_le room)
      rw [performed] at stored
      cases stored

/-- A link gives way to the new file, its target stays, and a directory is made on the way; a device
that fails leaves this directory behind, the link as it was, and no temporary file. -/
example :
    let file : EntryName := ⟨"a", by decide +kernel⟩
    let link : EntryName := ⟨"b", by decide +kernel⟩
    let before : Workspace :=
      ⟨(FileTree.empty.put file [] (.file [1])).put link [] (.link "a"), []⟩
    let standing (filling : Filling) : List (List String × Option Entry) :=
      let left := ((WriteMode.staged ⟨"t", by decide +kernel⟩ filling).write before "out/../b" "n").2
      left.tree.places.map fun place => (place.map EntryName.text, left.tree.get? place)
    standing .complete =
        [(["a"], some (.file [1])), (["b"], some (.file [110])), (["out"], some .directory)] ∧
      standing (.stopped 1 (.device "disk full")) =
        [(["a"], some (.file [1])), (["b"], some (.link "a")), (["out"], some .directory)] := by
  decide +kernel

end WriteMode

end Stocktake
