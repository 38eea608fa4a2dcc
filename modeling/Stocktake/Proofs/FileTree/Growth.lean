import Stocktake.Proofs.FileTree.Replace

/-! Directories that a path needs are made beside all that stands already, and nothing else is. -/

namespace Stocktake

namespace Workspace

/-- Nothing is lost from one workspace to another, and what is new are directories to which one of
the given paths leads. -/
structure Grows (before after : Workspace) (paths : List String) : Prop where
  here : after.here = before.here
  kept : ∀ {place entry}, before.tree.get? place = some entry →
    after.tree.get? place = some entry
  added : ∀ {place entry}, before.tree.get? place = none → after.tree.get? place = some entry →
    entry = .directory ∧ ∃ path ∈ paths, after.find path = .ok (place, .directory)

namespace Grows

variable {before middle after : Workspace} {paths more : List String}

/-- A workspace that stays as it is has not lost anything. -/
theorem refl (workspace : Workspace) (paths : List String) : workspace.Grows workspace paths where
  -- Nothing is new, so nothing has to be accounted for.
  here := rfl
  kept := id
  added absent present := by simp [absent] at present

/-- A path to an entry goes on leading there. -/
theorem find (grows : before.Grows after paths) {path : String} {place : Location} {entry : Entry}
    (found : before.find path = .ok (place, entry)) : after.find path = .ok (place, entry) := by
  obtain ⟨reached, stands⟩ := find_eq_ok.mp found
  obtain ⟨null, present, short, followed⟩ := reach_eq_ok.mp reached
  -- The entry and all directories and links on the way are still there.
  have kept := FileTree.follow_of_kept_entry (fun stood _ => grows.kept stood) followed stands
    (grows.kept stands)
  rw [← grows.here] at kept
  exact find_eq_ok.mpr ⟨reach_eq_ok.mpr ⟨null, present, short, kept⟩, grows.kept stands⟩

/-- Directories may be added in several steps. -/
theorem trans (first : before.Grows middle paths) (second : middle.Grows after paths) :
    before.Grows after paths where
  here := second.here.trans first.here
  kept stood := second.kept (first.kept stood)
  added {place entry} absent present := by
    -- What is new has come with the second step, or with the first one and stayed.
    cases between : middle.tree.get? place with
    | none => exact second.added between present
    | some early =>
      obtain ⟨rfl, path, member, found⟩ := first.added absent between
      have same := (second.kept between).symm.trans present
      exact ⟨(Option.some.inj same).symm, path, member, second.find found⟩

/-- More paths may lead to what is new. -/
theorem mono (grows : before.Grows after paths) (wider : paths ⊆ more) :
    before.Grows after more where
  -- What is new stands on the way of one of the paths, which are all among the wider ones.
  here := grows.here
  kept := grows.kept
  added absent present := by
    obtain ⟨directory, path, member, found⟩ := grows.added absent present
    exact ⟨directory, path, wider member, found⟩

end Grows

variable {workspace made : Workspace} {path : String}

/-- A new entry comes under a free name into the directory in which the last step is taken. -/
theorem create_eq_ok {entry : Entry} (done : workspace.create path entry = .ok made) :
    ∃ name home, workspace.homeOf path = .ok home ∧
      (Approach.ofSteps (stepsOf path)).last = .down name ∧
      workspace.tree.get? (name :: home) = none ∧ made = workspace.withEntry name home entry := by
  rw [create] at done
  simp only [bind, Except.bind, pure, Except.pure] at done
  cases found : workspace.homeOf path with
  | error cause => simp [found] at done
  | ok home =>
    rw [found] at done
    dsimp only at done
    cases last : (Approach.ofSteps (stepsOf path)).last with
    | down name =>
      rw [last] at done
      dsimp only at done
      split at done
      · simp [throw, throwThe, MonadExceptOf.throw] at done
      · rename_i free
        split at done
        · simp [throw, throwThe, MonadExceptOf.throw] at done
        · refine ⟨name, home, rfl, rfl, ?_, (Except.ok.inj done).symm⟩
          simpa using free
    | _ =>
      -- Only a name leads to a place where nothing stands.
      rw [last] at done
      simp [throw, throwThe, MonadExceptOf.throw] at done

/-- A directory is made beside all that stands already, where its path leads. -/
theorem grows_makeDirectory (done : workspace.makeDirectory path = .ok made) :
    workspace.Grows made [path] := by
  obtain ⟨name, home, found, last, free, rfl⟩ := create_eq_ok done
  have shown : ∀ place, (workspace.tree.put name home .directory).get? place =
      if place = name :: home then some .directory else workspace.tree.get? place :=
    FileTree.get?_put ⟨directory_of_homeOf found, by simp [free]⟩
  refine { here := rfl, kept := fun {place entry} stood => ?_, added := ?_ }
  · -- Nothing stood where the directory is made.
    change (workspace.tree.put name home .directory).get? place = some entry
    rw [shown, if_neg]
    · exact stood
    · rintro rfl
      simp [free] at stood
  · intro place entry absent present
    change (workspace.tree.put name home .directory).get? place = some entry at present
    rw [shown] at present
    split at present
    · rename_i there
      obtain rfl := Option.some.inj present
      refine ⟨rfl, path, List.mem_singleton_self path, ?_⟩
      rw [there]
      exact find_withEntry found last (by simp [free]) (by simp [free]) (by simp) (.inr rfl)
    · simp [absent] at present

/-- Directories are made in a chain beside all that stands already, also when the chain breaks. -/
theorem grows_makeChain (workspace : Workspace) (paths : List String) :
    workspace.Grows (workspace.makeChain paths).2 paths := by
  -- The directory at the head of the chain is tried, then those above it, then the head again.
  induction paths with
  | nil => exact .refl workspace []
  | cons path parents ih =>
    have above := ih.mono (List.subset_cons_self path parents)
    have head : [path] ⊆ path :: parents := by simp
    rw [makeChain]
    split
    · exact .refl workspace _
    · cases first : workspace.makeDirectory path with
      | ok made => exact (grows_makeDirectory first).mono head
      | error cause =>
        cases cause with
        | missing =>
          dsimp only
          cases chain : workspace.makeChain parents with
          | mk result ready =>
            rw [chain] at above
            cases result with
            | error cause => exact above
            | ok _ =>
              dsimp only
              cases again : ready.makeDirectory path with
              | error cause => exact above
              | ok done => exact above.trans ((grows_makeDirectory again).mono head)
        | _ => exact .refl workspace _

/-- The directories that the end of a path needs, the innermost in front. -/
def parentsOf (path : String) : List String :=
  Path.ancestors ((stagingDirectory path).length + 1) (stagingDirectory path)

/-- Preparing a path makes nothing but missing directories above its end. -/
theorem grows_prepare (workspace : Workspace) (path : String) :
    workspace.Grows (workspace.prepare path).2 (parentsOf path) := by
  -- Either all directories are there or the missing ones are made.
  rw [prepare]
  split
  · exact .refl workspace _
  · exact workspace.grows_makeChain _

end Workspace

end Stocktake
