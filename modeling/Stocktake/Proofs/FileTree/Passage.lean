import Stocktake.Proofs.FileTree.Route

/-! A path is led by what stands at the places on its way, and by nothing else in a tree. -/

namespace Stocktake

/-- The place to which a step leads from a directory, if it can be one. -/
def Step.next? (place : Location) : Step → Option Location
  | .slash => some place
  | .stay => some place
  | .up => some place.tail
  | .down name => some (name :: place)
  | .nowhere => none

namespace FileTree

variable {tree other : FileTree}

/-- The places that a route comes to before it goes through a link. -/
def sights (tree : FileTree) : List Step → Location → List Location
  | [], place => [place]
  | step :: steps, place =>
    -- A blocked step, too, looks at the place where it is taken.
    place ::
      if tree.get? place = some .directory then
        match step.next? place with
        | some next => tree.sights steps next
        | none => []
      else []

/-- The places that a route comes to, also behind the links on it. -/
def passed (tree : FileTree) (links : Nat) (steps : List Step) (place : Location) :
    List Location :=
  tree.sights steps place ++
    -- Behind a link, the route goes on along the target from where that begins.
    match tree.advance false steps place with
    | .atLink target home rest =>
      match links with
      | 0 => []
      | links + 1 => tree.passed links (stepsOf target ++ rest) (routeStart home target)
    | _ => []

/-- A route comes to the place where it starts. -/
theorem start_mem_sights (steps : List Step) (start : Location) :
    start ∈ tree.sights steps start := by
  -- The start is seen before the first step.
  cases steps <;> simp [sights]

/-- A step of a route that arrives before its first link is taken from a directory. -/
theorem advance_cons_eq_arrived {step : Step} {steps : List Step} {start place : Location}
    (arrived : tree.advance false (step :: steps) start = .arrived place) :
    tree.get? start = some .directory ∧
      ∃ next, step.next? start = some next ∧ tree.advance false steps next = .arrived place := by
  -- Anywhere but in a directory the route would have been blocked.
  by_cases inside : tree.get? start = some .directory
  · refine ⟨inside, ?_⟩
    cases step with
    | slash => exact ⟨start, rfl, by rwa [advance_idle inside _ (.inl rfl)] at arrived⟩
    | stay => exact ⟨start, rfl, by rwa [advance_idle inside _ (.inr rfl)] at arrived⟩
    | up => exact ⟨start.tail, rfl, by rwa [advance_up inside] at arrived⟩
    | nowhere => simp [advance_nowhere inside] at arrived
    | down name =>
      refine ⟨name :: start, rfl, ?_⟩
      rw [advance_down inside] at arrived
      simp only [Bool.false_and, Bool.false_eq_true, if_false] at arrived
      cases found : tree.get? (name :: start) with
      | none =>
        -- Where nothing stands, a route arrives with its last name only.
        rw [found] at arrived
        dsimp only at arrived
        split at arrived
        · rename_i last
          rw [List.isEmpty_iff.mp last, advance_nil, arrived]
        · simp at arrived
      | some entry =>
        rw [found] at arrived
        cases entry with
        | link target => simp at arrived
        | _ => exact arrived
  · simp [advance_of_not_directory inside] at arrived

/-- A route that arrives before its first link comes to the place where it does. -/
theorem mem_sights_of_arrived {steps : List Step} {start place : Location}
    (arrived : tree.advance false steps start = .arrived place) :
    place ∈ tree.sights steps start := by
  -- A route has its own end in common with that of its rest.
  induction steps generalizing start with
  | nil =>
    obtain rfl : start = place := by simpa using arrived
    exact start_mem_sights [] start
  | cons step steps ih =>
    obtain ⟨inside, next, leads, onward⟩ := advance_cons_eq_arrived arrived
    rw [sights, if_pos inside, leads]
    exact List.mem_cons_of_mem _ (ih onward)

/-- Trees are passed alike up to the first link when the same stands where the route comes to. -/
theorem advance_eq_of_sights {steps : List Step} {start : Location}
    (same : ∀ place ∈ tree.sights steps start, other.get? place = tree.get? place) :
    other.advance false steps start = tree.advance false steps start := by
  -- Each step looks at the place where it is taken and at the one to which it leads.
  induction steps generalizing start with
  | nil => simp
  | cons step steps ih =>
    have here := same start (start_mem_sights _ _)
    by_cases inside : tree.get? start = some .directory
    · have inside' : other.get? start = some .directory := here.trans inside
      rw [sights, if_pos inside] at same
      have later := fun place member => same place (List.mem_cons_of_mem _ member)
      cases step with
      | slash => rw [advance_idle inside _ (.inl rfl), advance_idle inside' _ (.inl rfl), ih later]
      | stay => rw [advance_idle inside _ (.inr rfl), advance_idle inside' _ (.inr rfl), ih later]
      | up => rw [advance_up inside, advance_up inside', ih later]
      | down name =>
        rw [advance_down inside, advance_down inside', ih later,
          later _ (start_mem_sights steps (name :: start))]
      | nowhere => rw [advance_nowhere inside, advance_nowhere inside']
    · have outside : other.get? start ≠ some .directory := by rwa [here]
      rw [advance_of_not_directory inside, advance_of_not_directory outside]

/-- Trees have the same route when the same stands at all places that it comes to. -/
theorem follow_eq_of_passed {links : Nat} {steps : List Step} {start : Location}
    (same : ∀ place ∈ tree.passed links steps start, other.get? place = tree.get? place) :
    other.follow false links steps start = tree.follow false links steps start := by
  -- Up to the first link both trees are passed alike, and behind it one link fewer is left.
  induction links generalizing steps start with
  | zero =>
    rw [passed] at same
    rw [follow, follow,
      advance_eq_of_sights fun place member => same place (List.mem_append_left _ member)]
  | succ links ih =>
    rw [passed] at same
    rw [follow, follow,
      advance_eq_of_sights fun place member => same place (List.mem_append_left _ member)]
    cases stopped : tree.advance false steps start with
    | atLink target home rest =>
      rw [stopped] at same
      exact ih fun place member => same place (List.mem_append_right _ member)
    | _ => rfl

/-- A route comes to the place at which it ends. -/
theorem mem_passed_of_follow {links : Nat} {steps : List Step} {start place : Location}
    (ends : tree.follow false links steps start = .ok place) :
    place ∈ tree.passed links steps start := by
  -- The end comes before the first link, or behind it with one link fewer left.
  induction links using Nat.strongRecOn generalizing steps start with
  | ind links ih =>
    obtain arrived | ⟨fewer, target, home, rest, rfl, stopped, onward⟩ := follow_eq_ok.mp ends
    · rw [passed.eq_def]
      exact List.mem_append_left _ (mem_sights_of_arrived arrived)
    · rw [passed, stopped]
      exact List.mem_append_right _ (ih fewer (Nat.lt_succ_self fewer) onward)

/-- A longer route comes to all places that its beginning comes to before a link. -/
theorem sights_subset_append (steps more : List Step) (start : Location) :
    tree.sights steps start ⊆ tree.sights (steps ++ more) start := by
  -- Both routes take the same steps until the shorter one has none left.
  induction steps generalizing start with
  | nil =>
    intro place member
    rw [List.mem_singleton.mp member]
    exact start_mem_sights _ _
  | cons step steps ih =>
    rw [List.cons_append, sights, sights]
    refine List.cons_subset_cons _ ?_
    split
    · cases step.next? start with
      | some next => exact ih next
      | none => exact List.Subset.refl _
    · exact List.Subset.refl _

/-- Behind a place at which it arrives without a link, a route goes on to further places. -/
theorem sights_subset_of_arrived {steps : List Step} {start place : Location}
    (arrived : tree.advance false steps start = .arrived place) (more : List Step) :
    tree.sights more place ⊆ tree.sights (steps ++ more) start := by
  -- Each step that is taken only adds the place where it started.
  induction steps generalizing start with
  | nil =>
    obtain rfl : start = place := by simpa using arrived
    exact List.Subset.refl _
  | cons step steps ih =>
    obtain ⟨inside, next, leads, onward⟩ := advance_cons_eq_arrived arrived
    rw [List.cons_append, sights, if_pos inside, leads]
    exact List.Subset.trans (ih onward) (List.subset_cons_self _ _)

/-- A route that goes on from an entry comes to all places of its rest, up to a link on that. -/
theorem sights_subset_passed {links : Nat} {steps : List Step} {start place : Location}
    (ends : tree.follow false links steps start = .ok place) (more : List Step) :
    tree.sights more place ⊆ tree.passed links (steps ++ more) start := by
  -- Behind a link, the further steps stay behind those of its target.
  induction links using Nat.strongRecOn generalizing steps start with
  | ind links ih =>
    obtain arrived | ⟨fewer, target, home, rest, rfl, stopped, onward⟩ := follow_eq_ok.mp ends
    · rw [passed.eq_def]
      exact List.Subset.trans (sights_subset_of_arrived arrived more)
        (List.subset_append_left _ _)
    · rw [passed, advance_append_of_atLink stopped more]
      dsimp only
      rw [← List.append_assoc]
      exact List.Subset.trans (ih fewer (Nat.lt_succ_self fewer) onward)
        (List.subset_append_right _ _)

/-- Names that lead down to an entry lead by way of all places above it. -/
theorem mem_sights_downs {inner outer base : Location}
    (present : (tree.get? (inner ++ outer ++ base)).isSome) :
    outer ++ base ∈ tree.sights ((inner ++ outer).reverse.map .down) base := by
  -- The outer names lead through directories, of which the last one may be the entry itself.
  rw [List.reverse_append, List.map_append]
  refine sights_subset_append _ _ base ?_
  cases outer with
  | nil => exact start_mem_sights _ base
  | cons name outer =>
    have above : tree.get? (outer ++ base) = some .directory :=
      directory_of_isSome_chain present inner name outer rfl
    have arrived : tree.advance false (outer.reverse.map .down) base =
        .arrived (outer ++ base) := by
      have passes := advance_downs above []
      rwa [List.append_nil, advance_nil] at passes
    rw [List.reverse_cons, List.map_append]
    refine sights_subset_of_arrived arrived _ ?_
    rw [List.map_singleton, sights, if_pos above]
    exact List.mem_cons_of_mem _ (start_mem_sights [] _)

end FileTree

namespace Workspace

variable {workspace other : Workspace}

/-- The places on the way of a path. -/
def way (workspace : Workspace) (path : String) : List Location :=
  workspace.tree.passed linkLimit (stepsOf path) (routeStart workspace.here path)

/-- A path leads to the same when the same stands at all places on its way. -/
theorem find_eq_of_way {path : String} (here : other.here = workspace.here)
    (same : ∀ place ∈ workspace.way path, other.tree.get? place = workspace.tree.get? place) :
    other.find path = workspace.find path := by
  have reached : other.reach false path (stepsOf path) =
      workspace.reach false path (stepsOf path) := by
    rw [reach, reach, here, FileTree.follow_eq_of_passed same]
  rw [find, find, reached]
  -- The end of the route is on the way, too.
  cases ends : workspace.reach false path (stepsOf path) with
  | error cause => rfl
  | ok place =>
    have stands := same place (FileTree.mem_passed_of_follow (reach_eq_ok.mp ends).2.2.2)
    simp only [bind, Except.bind, stands]

/-- What a path leads to stands on its way. -/
theorem mem_way_of_find {path : String} {place : Location} {entry : Entry}
    (found : workspace.find path = .ok (place, entry)) : place ∈ workspace.way path :=
  -- A path that is found is followed to its end, which is the last place it passes.
  FileTree.mem_passed_of_follow (reach_eq_ok.mp (find_eq_ok.mp found).1).2.2.2

end Workspace

end Stocktake
