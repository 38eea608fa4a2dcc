import Stocktake.FileTree.Staging
import Stocktake.Proofs.FileTree.Growth

/-! A temporary file leaves no trace: a write that fails has made nothing but directories, and one
that succeeds has put the whole content where the path leads. -/

namespace Stocktake

namespace Workspace

variable {workspace left written : Workspace} {name : EntryName} {home : Location}
  {filling : Filling} {directory path : String} {content : Bytes} {cause : SystemFault}

/-- Without its temporary file a workspace is what it was before. -/
theorem withoutEntry_withEntry (entry : Entry) (free : workspace.tree.get? (name :: home) = none) :
    (workspace.withEntry name home entry).withoutEntry name home = workspace := by
  -- Taking the entry away undoes putting it where nothing stood.
  rw [withoutEntry, withEntry, FileTree.remove_put entry free]

/-- A temporary file stands in the directory of its path, under a name that was free there. -/
theorem stagingHome_eq_ok (found : workspace.stagingHome name directory = .ok home) :
    workspace.find directory = .ok (home, .directory) ∧
      (workspace.stagingPath directory).utf8ByteSize < pathLimit ∧
      workspace.tree.get? (name :: home) = none := by
  -- The path leads to a directory, there is room for the name, and the name is not taken.
  rw [stagingHome] at found
  split at found
  · rename_i place inside
    split at found
    · cases found
    · rename_i short
      split at found
      · cases found
      · rename_i free
        obtain rfl := Except.ok.inj found
        exact ⟨inside, Nat.lt_of_not_le short, by simpa using free⟩
  · cases found
  · cases found

/-- Moving a temporary file is installing what was written to it. -/
theorem moveFile_withEntry (inside : workspace.tree.get? home = some .directory)
    (free : workspace.tree.get? (name :: home) = none) :
    (workspace.withEntry name home (.file content)).moveFile name home path =
      workspace.install path content := by
  -- The temporary file is found, taken away, and its content installed.
  have fits : workspace.tree.Fits name home := ⟨inside, by simp [free]⟩
  have stands : (workspace.withEntry name home (.file content)).tree.get? (name :: home) =
      some (.file content) := by
    rw [withEntry, FileTree.get?_put fits, if_pos rfl]
  rw [moveFile, stands]
  dsimp only
  rw [withoutEntry_withEntry _ free]

/-- A staged write either fails without a trace, or installs the whole content. -/
theorem stageThrough_cases (workspace : Workspace) (name : EntryName) (filling : Filling)
    (directory path : String) (content : Bytes) :
    (∃ cause, workspace.stageThrough name filling directory path content =
        (.error cause, workspace)) ∨
      ∃ written, workspace.install path content = .ok written ∧
        workspace.stageThrough name filling directory path content = (.ok (), written) := by
  rw [stageThrough]
  cases found : workspace.stagingHome name directory with
  | error cause => exact .inl ⟨cause, rfl⟩
  | ok home =>
    obtain ⟨reached, -, free⟩ := stagingHome_eq_ok found
    have inside := (find_eq_ok.mp reached).2
    dsimp only
    cases filling with
    | stopped taken cause =>
      -- The bytes that were written go with the file.
      refine .inl ⟨cause, ?_⟩
      rw [settle, withoutEntry_withEntry _ free]
    | complete =>
      rw [settle, Filling.bytes, moveFile_withEntry inside free, withoutEntry_withEntry _ free]
      cases installed : workspace.install path content with
      | error cause => exact .inl ⟨cause, rfl⟩
      | ok written => exact .inr ⟨written, rfl, rfl⟩

/-- With a free name and a device that does not fail, a temporary file makes no difference. -/
theorem stageThrough_complete
    (free : ∀ home, workspace.find directory = .ok (home, .directory) →
      workspace.tree.get? (name :: home) = none) :
    workspace.stageThrough name .complete directory path content =
      match workspace.stage directory path content with
      | .ok done => (.ok (), done)
      | .error cause => (.error cause, workspace) := by
  rw [stageThrough, stagingHome, stage]
  cases found : workspace.find directory with
  | error cause => rfl
  | ok target =>
    obtain ⟨home, entry⟩ := target
    cases entry with
    | directory =>
      have absent := free home found
      have inside := (find_eq_ok.mp found).2
      dsimp only
      by_cases long : pathLimit ≤ (workspace.stagingPath directory).utf8ByteSize
      · rw [if_pos long, if_pos long]
      · -- The file is moved at once to where it would have been put without it.
        rw [if_neg long, if_neg long, absent, if_neg (by simp)]
        cases installed : workspace.install path content <;>
          simp [settle, Filling.bytes, moveFile_withEntry inside absent,
            withoutEntry_withEntry _ absent, installed]
    | _ => rfl

/-- A replacement is the same with a temporary file of a free name as without one. -/
theorem replaceThrough_complete
    (free : ∀ home, (workspace.prepare path).2.find (stagingDirectory path) =
        .ok (home, .directory) → (workspace.prepare path).2.tree.get? (name :: home) = none) :
    workspace.replaceThrough name .complete path content = workspace.replace path content := by
  -- Preparing is the same, and behind it the two ways to stage agree.
  unfold replaceThrough replace
  cases prepared : workspace.prepare path with
  | mk outcome ready =>
    rw [prepared] at free
    cases outcome with
    | error cause => rfl
    | ok _ => exact stageThrough_complete free

/-- A replacement that fails has prepared its path at most. -/
theorem replace_eq_error (failed : workspace.replace path content = (.error cause, left)) :
    left = (workspace.prepare path).2 := by
  -- A failure comes from preparing, or from staging, which changes nothing when it fails.
  unfold replace at failed
  cases prepared : workspace.prepare path with
  | mk outcome ready =>
    rw [prepared] at failed
    cases outcome with
    | error fault => exact (Prod.mk.inj failed).2.symm
    | ok _ =>
      dsimp only at failed
      split at failed
      · cases failed
      · exact (Prod.mk.inj failed).2.symm

/-- A staged replacement fails with what preparing its path has left, or installs the content. -/
theorem replaceThrough_cases (workspace : Workspace) (name : EntryName) (filling : Filling)
    (path : String) (content : Bytes) :
    (∃ cause, workspace.replaceThrough name filling path content =
        (.error cause, (workspace.prepare path).2)) ∨
      ∃ ready written, workspace.prepare path = (.ok (), ready) ∧
        ready.install path content = .ok written ∧
        workspace.replaceThrough name filling path content = (.ok (), written) := by
  unfold replaceThrough
  cases prepared : workspace.prepare path with
  | mk outcome ready =>
    cases outcome with
    | error cause => exact .inl ⟨cause, rfl⟩
    | ok _ =>
      -- The directories are there, and the temporary file is all that is left to do.
      rcases ready.stageThrough_cases name filling (stagingDirectory path) path content with
        ⟨cause, failed⟩ | ⟨written, installed, done⟩
      · exact .inl ⟨cause, failed⟩
      · exact .inr ⟨ready, written, rfl, installed, done⟩

end Workspace

namespace WriteMode

variable {mode : WriteMode} {workspace left written : Workspace} {path : String} {content : Bytes}

/-- A write that fails has lost nothing and made nothing but directories that its path needs. -/
theorem grows_of_perform_eq_error {cause : SystemFault}
    (failed : mode.perform workspace path content = (.error cause, left)) :
    workspace.Grows left (Workspace.parentsOf path) := by
  -- Whatever way is taken, a failed write leaves what preparing its path left.
  have prepared := workspace.grows_prepare path
  cases mode with
  | whole =>
    obtain rfl := Workspace.replace_eq_error failed
    exact prepared
  | staged name filling =>
    rcases workspace.replaceThrough_cases name filling path content with
      ⟨_, same⟩ | ⟨_, _, _, _, done⟩
    · obtain rfl := (Prod.mk.inj (same.symm.trans failed)).2
      exact prepared
    · cases (Prod.mk.inj (done.symm.trans failed)).1
  | refused fault =>
    obtain rfl := (Prod.mk.inj failed).2
    exact .refl workspace _

/-- A write that succeeds has installed the whole content where its path was prepared. -/
theorem perform_eq_ok (done : mode.perform workspace path content = (.ok (), written)) :
    ∃ ready, workspace.prepare path = (.ok (), ready) ∧
      ready.install path content = .ok written := by
  -- Both ways to write end by installing, and a refused write does not succeed.
  cases mode with
  | whole => exact Workspace.replace_eq_ok done
  | staged name filling =>
    rcases workspace.replaceThrough_cases name filling path content with
      ⟨_, failed⟩ | ⟨ready, _, prepared, installed, same⟩
    · cases (Prod.mk.inj (failed.symm.trans done)).1
    · obtain rfl := (Prod.mk.inj (same.symm.trans done)).2
      exact ⟨ready, prepared, installed⟩
  | refused fault => cases (Prod.mk.inj done).1

end WriteMode

end Stocktake
