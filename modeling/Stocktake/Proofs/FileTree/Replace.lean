import Mathlib.Data.List.TakeWhile
import Stocktake.FileTree.Change
import Stocktake.Proofs.FileTree.Route

/-! A replaced file stands where its path leads, in directories that were made as needed. -/

namespace Stocktake

/-- The steps of a path are those before its last one, that one, and the slashes behind it. -/
theorem Approach.steps_split {steps : List Step} {name : EntryName}
    (last : (Approach.ofSteps steps).last = .down name) :
    ∃ slashes : List Step, (∀ step ∈ slashes, step = .slash) ∧
      ((Approach.ofSteps steps).slashed = false → slashes = []) ∧
      steps = (Approach.ofSteps steps).leading ++ .down name :: slashes := by
  -- Read backwards, the slashes come first and the last step behind them.
  obtain ⟨backwards, rfl⟩ : ∃ backwards, steps = backwards.reverse :=
    ⟨steps.reverse, (List.reverse_reverse steps).symm⟩
  unfold Approach.ofSteps at last ⊢
  rw [List.reverse_reverse] at last ⊢
  have parts := List.takeWhile_append_dropWhile (p := (· == Step.slash)) (l := backwards)
  cases behind : backwards.dropWhile (· == Step.slash) with
  | nil => simp [behind] at last
  | cons found leading =>
    rw [behind] at parts
    simp only [behind] at last ⊢
    subst last
    refine ⟨(backwards.takeWhile (· == Step.slash)).reverse, fun step member => ?_, ?_, ?_⟩
    · simpa using List.mem_takeWhile_imp (List.mem_reverse.mp member)
    · intro bare
      cases backwards with
      | nil => rfl
      | cons first rest => simp_all
    · simpa using congrArg List.reverse parts.symm

namespace Workspace

variable {workspace written : Workspace} {path : String} {content : Bytes}

/-- The place at which a path puts a new file: a last name in the directory that it leads to. -/
def PutsAt (workspace : Workspace) (path : String) (name : EntryName) (home : Location) : Prop :=
  workspace.homeOf path = .ok home ∧ (Approach.ofSteps (stepsOf path)).last = .down name ∧
    (Approach.ofSteps (stepsOf path)).slashed = false

/-- A path puts a file at one place only. -/
theorem PutsAt.unique {name name' : EntryName} {home home' : Location}
    (puts : workspace.PutsAt path name home) (puts' : workspace.PutsAt path name' home') :
    name = name' ∧ home = home' :=
  -- The directory is found by the path, and the name is its last step.
  ⟨Step.down.inj (puts.2.1.symm.trans puts'.2.1), Except.ok.inj (puts.1.symm.trans puts'.1)⟩

/-- A file is installed in a directory where none stands under its name. -/
theorem install_eq_ok (done : workspace.install path content = .ok written) :
    ∃ name home, workspace.PutsAt path name home ∧
      workspace.tree.get? (name :: home) ≠ some .directory ∧
      written = workspace.withEntry name home (.file content) := by
  -- Each check on the way has to let the path pass; what is left is the entry put in its place.
  rw [install] at done
  split at done
  · simp [bind, Except.bind, throw, throwThe, MonadExceptOf.throw] at done
  · simp only [bind, Except.bind, pure, Except.pure] at done
    cases found : workspace.homeOf path with
    | error cause => simp [found] at done
    | ok home =>
      rw [found] at done
      dsimp only at done
      cases last : (Approach.ofSteps (stepsOf path)).last with
      | down name =>
        rw [last] at done
        dsimp only at done
        split at done
        · simp [throw, throwThe, MonadExceptOf.throw] at done
        · rename_i bare
          split at done
          · simp [throw, throwThe, MonadExceptOf.throw] at done
          · rename_i free
            exact ⟨name, home, ⟨found, last, by simpa using bare⟩, free, (Except.ok.inj done).symm⟩
      | _ =>
        rw [last] at done
        simp [throw, throwThe, MonadExceptOf.throw] at done

/-- A file is staged in a directory that is there, and installed from it. -/
theorem stage_eq_ok {directory : String} :
    workspace.stage directory path content = .ok written ↔
      (∃ place, workspace.find directory = .ok (place, .directory)) ∧
        (workspace.stagingPath directory).utf8ByteSize < pathLimit ∧
        workspace.install path content = .ok written := by
  -- Staging asks for the directory, then for room, and then leaves the rest to installing.
  rw [stage]
  cases found : workspace.find directory with
  | error cause => simp
  | ok there =>
    obtain ⟨place, last⟩ := there
    cases last with
    | directory =>
      by_cases long : pathLimit ≤ (workspace.stagingPath directory).utf8ByteSize
      · simp [long, Nat.not_lt.mpr long]
      · simp [long, Nat.not_le.mp long]
    | _ => simp

/-- A finished replacement has staged the file once the directories were made. -/
theorem stage_of_replace (done : workspace.replace path content = (.ok (), written)) :
    ∃ ready, workspace.prepare path = (.ok (), ready) ∧
      ready.stage (stagingDirectory path) path content = .ok written := by
  -- Preparing and staging hand over their faults, so that neither has failed.
  unfold replace at done
  cases prepared : workspace.prepare path with
  | mk outcome ready =>
    rw [prepared] at done
    cases outcome with
    | error cause => simp at done
    | ok _ =>
      refine ⟨ready, rfl, ?_⟩
      dsimp only at done
      split at done
      · rename_i there staged
        rw [staged, (Prod.mk.inj done).2]
      · simp at done

/-- A finished replacement has installed the file once the directories were made. -/
theorem replace_eq_ok (done : workspace.replace path content = (.ok (), written)) :
    ∃ ready, workspace.prepare path = (.ok (), ready) ∧
      ready.install path content = .ok written := by
  -- What is staged has been installed.
  obtain ⟨ready, prepared, staged⟩ := stage_of_replace done
  exact ⟨ready, prepared, (stage_eq_ok.mp staged).2.2⟩

/-- The directory in which the last step of a path is taken is one. -/
theorem directory_of_homeOf {home : Location} (found : workspace.homeOf path = .ok home) :
    workspace.tree.get? home = some .directory :=
  -- The route to the directory ends with a slash, which only a directory takes.
  (FileTree.follow_append_slash.mp (reach_eq_ok.mp found).2.2.2).2

/-- A file is installed where its path puts it, unless a directory is in the way. -/
theorem install_of_putsAt {name : EntryName} {home : Location}
    (puts : workspace.PutsAt path name home)
    (free : workspace.tree.get? (name :: home) ≠ some .directory) :
    workspace.install path content = .ok (workspace.withEntry name home (.file content)) := by
  -- The route to the directory and the last step are known, and so is what stands there.
  obtain ⟨found, last, bare⟩ := puts
  have pure := (reach_eq_ok.mp found).1
  rw [install, if_neg (by simpa using pure)]
  simp [bind, Except.bind, found, last, bare, free, Pure.pure, Except.pure]

/-- A new entry is what its path leads to, unless the path goes through a link that gave way. -/
theorem find_withEntry {name : EntryName} {home : Location} {entry : Entry}
    (found : workspace.homeOf path = .ok home)
    (last : (Approach.ofSteps (stepsOf path)).last = .down name)
    (free : workspace.tree.get? (name :: home) ≠ some .directory)
    (solid : ∀ target, workspace.tree.get? (name :: home) ≠ some (.link target))
    (plain : ∀ target, entry ≠ .link target)
    (closed : (Approach.ofSteps (stepsOf path)).slashed = false ∨ entry = .directory) :
    (workspace.withEntry name home entry).find path = .ok (name :: home, entry) := by
  obtain ⟨slashes, idle, bare, steps⟩ := Approach.steps_split last
  have fits : workspace.tree.Fits name home := ⟨directory_of_homeOf found, free⟩
  have shown : ∀ place, (workspace.tree.put name home entry).get? place =
      if place = name :: home then some entry else workspace.tree.get? place :=
    FileTree.get?_put fits
  have stands : (workspace.tree.put name home entry).get? (name :: home) = some entry := by
    rw [shown, if_pos rfl]
  have inside : (workspace.tree.put name home entry).get? home = some .directory :=
    FileTree.directory_of_isSome (Option.isSome_of_mem stands)
  obtain ⟨null, present, short, followed⟩ := reach_eq_ok.mp found
  -- Directories and links are as before, so that the route to the directory is.
  have kept : (workspace.tree.put name home entry).follow false linkLimit
      ((Approach.ofSteps (stepsOf path)).leading ++ [.slash]) (routeStart workspace.here path) =
        .ok home := by
    refine FileTree.follow_of_kept (fun {place entry} before notFile => ?_) followed fits.1
    rw [shown]
    split
    · rename_i same
      rw [same] at before
      cases entry with
      | file content => exact absurd rfl (notFile content)
      | directory => exact absurd before free
      | link target => exact absurd before (solid target)
    · exact before
  obtain ⟨left, goesOn⟩ := FileTree.follow_append kept (Option.isSome_of_mem inside)
  -- From there the name leads to the entry, and slashes stay in it when it is a directory.
  have idles : (workspace.tree.put name home entry).advance false slashes (name :: home) =
      .arrived (name :: home) := by
    rcases closed with unslashed | rfl
    · rw [bare unslashed, FileTree.advance_nil]
    · exact FileTree.advance_slashes stands false idle
  have down : (workspace.tree.put name home entry).follow false left (.down name :: slashes) home =
      .ok (name :: home) := by
    refine FileTree.follow_eq_ok.mpr (.inl ?_)
    rw [FileTree.advance_down inside, stands]
    cases entry with
    | link target => exact absurd rfl (plain target)
    | _ => exact idles
  have reached : (workspace.tree.put name home entry).follow false linkLimit
      (stepsOf path) (routeStart workspace.here path) = .ok (name :: home) := by
    rw [steps, ← FileTree.follow_append_idle (.inl rfl), List.append_cons, goesOn, down]
  exact find_eq_ok.mpr ⟨reach_eq_ok.mpr ⟨null, present, short, reached⟩, stands⟩

/-- A file is put where its path leads, unless the path takes another way then. -/
theorem read_withEntry {name : EntryName} {home : Location} (puts : workspace.PutsAt path name home)
    (free : workspace.tree.get? (name :: home) ≠ some .directory)
    (solid : ∀ target, workspace.tree.get? (name :: home) ≠ some (.link target)) :
    (workspace.withEntry name home (.file content)).read path = .ok content := by
  -- The path still leads to the same place, where the new file is.
  obtain ⟨found, last, bare⟩ := puts
  rw [read, find_withEntry found last free solid (by simp) (.inl bare)]
  rfl

/-- A finished replacement leaves the file where its path leads; through the path it is read back
unless a link was replaced, whose target the path may have needed. -/
theorem replace_spec (done : workspace.replace path content = (.ok (), written)) :
    ∃ ready name home, workspace.prepare path = (.ok (), ready) ∧ ready.PutsAt path name home ∧
      (∀ place, written.tree.get? place =
        if place = name :: home then some (.file content) else ready.tree.get? place) ∧
      ((∀ target, ready.tree.get? (name :: home) ≠ some (.link target)) →
        written.read path = .ok content) := by
  -- The home is a directory, where the file fits under its name.
  obtain ⟨ready, prepared, installed⟩ := replace_eq_ok done
  obtain ⟨name, home, puts, free, rfl⟩ := install_eq_ok installed
  have fits : ready.tree.Fits name home := ⟨directory_of_homeOf puts.1, free⟩
  exact ⟨ready, name, home, prepared, puts, FileTree.get?_put fits, read_withEntry puts free⟩

end Workspace

end Stocktake
