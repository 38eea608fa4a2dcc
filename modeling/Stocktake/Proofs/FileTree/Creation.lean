import Stocktake.Proofs.FileTree.Replace

/-! A route that creates a file goes to the directory before its last name, and there through a link
if one stands under that name. -/

namespace Stocktake

namespace FileTree

variable {tree : FileTree}

/-- A route that creates a file takes its first step like any other while a name follows. -/
private theorem advance_cons_creates {more : List Step} (opens : closesDirectory more = false)
    {creates : Bool}
    (same : ∀ start, tree.advance creates more start = tree.advance false more start) (step : Step)
    (start : Location) :
    tree.advance creates (step :: more) start = tree.advance false (step :: more) start := by
  -- Only where nothing but slashes follow a name does a new file's route differ.
  by_cases inside : tree.get? start = some .directory
  · cases step with
    | slash => rw [advance_idle inside _ (.inl rfl), advance_idle inside _ (.inl rfl), same]
    | stay => rw [advance_idle inside _ (.inr rfl), advance_idle inside _ (.inr rfl), same]
    | up => rw [advance_up inside, advance_up inside, same]
    | nowhere => rw [advance_nowhere inside, advance_nowhere inside]
    | down name =>
      rw [advance_down inside, advance_down inside, opens, same, Bool.and_false, Bool.and_false]
  · rw [advance_of_not_directory inside, advance_of_not_directory inside]

/-- A route that creates a file is like any other when its last step is no slash. -/
theorem advance_creates {last : Step} (solid : last ≠ .slash) (creates : Bool) (steps : List Step)
    (start : Location) :
    tree.advance creates (steps ++ [last]) start = tree.advance false (steps ++ [last]) start := by
  -- Every step but the last has a name or dots behind it, and the last is no slash.
  induction steps generalizing start with
  | nil => exact advance_cons_creates rfl (fun start => by rw [advance_nil, advance_nil]) last start
  | cons step steps ih =>
    have opens : closesDirectory (steps ++ [last]) = false := by
      simp [closesDirectory, solid]
    exact advance_cons_creates opens ih step start

/-- Where a route that creates a file comes to, any other comes to as well. -/
theorem advance_of_creates {steps : List Step} {start : Location} {result : Advance}
    (ends : tree.advance true steps start = result) (passes : ∀ cause, result ≠ .blocked cause) :
    tree.advance false steps start = result := by
  induction steps generalizing start with
  | nil => rwa [advance_nil] at ends ⊢
  | cons step steps ih =>
    by_cases inside : tree.get? start = some .directory
    · cases step with
      | slash =>
        rw [advance_idle inside _ (.inl rfl)] at ends ⊢
        exact ih ends
      | stay =>
        rw [advance_idle inside _ (.inr rfl)] at ends ⊢
        exact ih ends
      | up =>
        rw [advance_up inside] at ends ⊢
        exact ih ends
      | nowhere => rwa [advance_nowhere inside] at ends ⊢
      | down name =>
        -- A name that has to be a directory is all that blocks the one route alone.
        rw [advance_down inside] at ends ⊢
        split at ends
        · exact absurd ends.symm (passes _)
        · rw [Bool.false_and, if_neg Bool.false_ne_true]
          split at ends
          · exact ends
          · exact ends
          · exact ih ends
    · rwa [advance_of_not_directory inside] at ends ⊢

/-- The end of a route that creates a file is that of any other. -/
theorem follow_of_creates {links : Nat} {steps : List Step} {start place : Location}
    (ends : tree.follow true links steps start = .ok place) :
    tree.follow false links steps start = .ok place := by
  -- Up to the first link both routes are the same, and behind it fewer links are left.
  induction links using Nat.strongRecOn generalizing steps start with
  | ind links ih =>
    obtain arrived | ⟨fewer, target, home, rest, rfl, stopped, onward⟩ := follow_eq_ok.mp ends
    · exact follow_eq_ok.mpr (.inl (advance_of_creates arrived (by simp)))
    · refine follow_eq_ok.mpr (.inr ⟨fewer, target, home, rest, rfl, ?_, ?_⟩)
      · exact advance_of_creates stopped (by simp)
      · exact ih fewer (Nat.lt_succ_self fewer) onward

/-- From anything but a directory a route does not go on. -/
theorem advance_append_of_bare {steps : List Step} {start place : Location}
    (arrived : tree.advance false steps start = .arrived place)
    (bare : tree.get? place ≠ some .directory) (step : Step) :
    ∃ cause, tree.advance false (steps ++ [step]) start = .blocked cause := by
  -- The route ends at an entry that is no directory, and steps are taken from directories only.
  induction steps generalizing start with
  | nil =>
    obtain rfl : start = place := by simpa using arrived
    exact ⟨_, advance_of_not_directory bare _ _ _⟩
  | cons first steps ih =>
    simp only [List.cons_append]
    obtain ⟨next, goes⟩ | ⟨target, _, stops⟩ | ⟨cause, blocks⟩ | ⟨last, absent, ends, misses⟩ :=
      tree.advance_cases first start
    · rw [goes] at arrived ⊢
      exact ih arrived
    · simp [stops] at arrived
    · simp [blocks] at arrived
    · cases steps with
      | nil => exact ⟨_, misses _ _⟩
      | cons next steps => simp [misses] at arrived

/-- A route with a name as its last step comes to the directory before that name, and goes on from
there with fewer links left to pass; without that directory it cannot be gone. -/
theorem follow_append_name (creates : Bool) (links : Nat) (steps : List Step) (name : EntryName)
    (start : Location) :
    (∃ home left, tree.follow false links (steps ++ [.slash]) start = .ok home ∧
      tree.follow creates links (steps ++ [.down name]) start =
        tree.follow creates left [.down name] home) ∨
    (∀ home, tree.follow false links (steps ++ [.slash]) start ≠ .ok home) ∧
      ∃ cause, tree.follow creates links (steps ++ [.down name]) start = .error cause := by
  have named : ∀ start, tree.advance creates (steps ++ [.down name]) start =
      tree.advance false (steps ++ [.down name]) start := advance_creates (by simp) creates steps
  -- Each link passed puts its target in front, and the name stays behind.
  induction links using Nat.strongRecOn generalizing steps start with
  | ind links ih =>
    rw [follow.eq_def tree creates links (steps ++ [Step.down name]), named]
    cases stopped : tree.advance false steps start with
    | arrived place =>
      by_cases inside : tree.get? place = some .directory
      · have alone : tree.advance creates [.down name] place =
            tree.advance false [.down name] place := advance_creates (by simp) creates [] place
        refine .inl ⟨place, links, follow_append_slash.mpr ⟨?_, inside⟩, ?_⟩
        · exact follow_eq_ok.mpr (.inl stopped)
        · rw [advance_append_of_arrived stopped (Option.isSome_of_mem inside),
            follow.eq_def tree creates links [Step.down name], alone]
      · obtain ⟨cause, blocked⟩ := advance_append_of_bare stopped inside (.down name)
        refine .inr ⟨fun home ends => ?_, cause, by rw [blocked]⟩
        obtain ⟨same, marked⟩ := follow_append_slash.mp ends
        rw [follow.eq_def, stopped] at same
        exact inside (Except.ok.inj same ▸ marked)
    | blocked cause =>
      refine .inr ⟨fun home ends => ?_, cause, by rw [advance_append_of_blocked stopped]⟩
      rw [follow.eq_def, advance_append_of_blocked stopped] at ends
      cases ends
    | atLink target home rest =>
      rw [follow.eq_def tree false links, advance_append_of_atLink stopped,
        advance_append_of_atLink stopped]
      cases links with
      | zero =>
        refine .inr ⟨fun home ends => ?_, _, rfl⟩
        cases ends
      | succ fewer =>
        dsimp only
        rw [← List.append_assoc, ← List.append_assoc]
        exact ih fewer (Nat.lt_succ_self fewer) _ _ (advance_creates (by simp) creates _)

/-- An entry stands in a directory, or it is the root, which is one itself. -/
theorem directory_tail {place : Location} (present : (tree.get? place).isSome) :
    tree.get? place.tail = some .directory := by
  -- Entries are found through the directories that hold them.
  cases place with
  | nil => exact congrArg some tree.rooted
  | cons name home => exact directory_of_isSome present

/-- A route of some steps arrives in a directory or at it, and not at a link. -/
theorem advance_ends {creates : Bool} {steps : List Step} {start place : Location}
    (filled : steps ≠ []) (arrived : tree.advance creates steps start = .arrived place) :
    (∀ target, tree.get? place ≠ some (.link target)) ∧
      tree.get? place.tail = some .directory := by
  induction steps generalizing start with
  | nil => exact absurd rfl filled
  | cons step steps ih =>
    -- The route may end where its first step leads.
    have onward : ∀ next, (∀ target, tree.get? next ≠ some (.link target)) →
        tree.get? next.tail = some .directory →
          tree.advance creates steps next = .arrived place →
            (∀ target, tree.get? place ≠ some (.link target)) ∧
              tree.get? place.tail = some .directory := by
      intro next plain above goes
      cases steps with
      | nil =>
        obtain rfl : next = place := by simpa using goes
        exact ⟨plain, above⟩
      | cons => exact ih (List.cons_ne_nil _ _) goes
    by_cases inside : tree.get? start = some .directory
    · have above := directory_tail (Option.isSome_of_mem inside)
      cases step with
      | slash =>
        rw [advance_idle inside _ (.inl rfl)] at arrived
        exact onward start (by simp [inside]) above arrived
      | stay =>
        rw [advance_idle inside _ (.inr rfl)] at arrived
        exact onward start (by simp [inside]) above arrived
      | up =>
        rw [advance_up inside] at arrived
        exact onward start.tail (by simp [above]) (directory_tail (Option.isSome_of_mem above))
          arrived
      | nowhere =>
        rw [advance_nowhere inside] at arrived
        cases arrived
      | down name =>
        rw [advance_down inside] at arrived
        split at arrived
        · cases arrived
        · split at arrived
          · rename_i absent
            split at arrived
            · obtain rfl := Advance.arrived.inj arrived
              exact ⟨by simp [absent], inside⟩
            · cases arrived
          · cases arrived
          · rename_i entry plain found
            refine onward (name :: start) (fun target link => ?_) inside arrived
            exact plain target (Option.some.inj (found.symm.trans link))
    · rw [advance_of_not_directory inside] at arrived
      cases arrived

/-- So does a route that passes links. -/
theorem follow_ends {creates : Bool} {links : Nat} {steps : List Step} {start place : Location}
    (filled : steps ≠ []) (ends : tree.follow creates links steps start = .ok place) :
    (∀ target, tree.get? place ≠ some (.link target)) ∧
      tree.get? place.tail = some .directory := by
  induction links using Nat.strongRecOn generalizing steps start with
  | ind links ih =>
    obtain arrived | ⟨fewer, target, home, rest, rfl, _, onward⟩ := follow_eq_ok.mp ends
    · exact advance_ends filled arrived
    · -- A target spells one step at least.
      have some_step : stepsOf target ++ rest ≠ [] := by
        simp [stepsOf, List.splitOn_ne_nil]
      exact ih fewer (Nat.lt_succ_self fewer) some_step onward

/-- A name leads into its directory, whatever stands there or not, unless that is a link. -/
theorem follow_name {name : EntryName} {home : Location} (inside : tree.get? home = some .directory)
    (solid : ∀ target, tree.get? (name :: home) ≠ some (.link target)) (creates : Bool)
    (links : Nat) : tree.follow creates links [.down name] home = .ok (name :: home) := by
  -- A name in a directory is one step, and only a link would lead elsewhere.
  have opens : (creates && closesDirectory []) = false := Bool.and_false creates
  refine follow_eq_ok.mpr (.inl ?_)
  rw [advance_down inside, opens]
  cases found : tree.get? (name :: home) with
  | none => rfl
  | some entry =>
    cases entry with
    | link target => exact absurd found (solid target)
    | _ => exact advance_nil creates _

end FileTree

namespace Workspace

variable {workspace written : Workspace} {path : String} {name : EntryName} {home place : Location}
  {content : Bytes}

/-- A path that ends with a name goes on from the directory before the name, where there is one. -/
theorem reach_cases {creates : Bool} (last : (Approach.ofSteps (stepsOf path)).last = .down name)
    (bare : (Approach.ofSteps (stepsOf path)).slashed = false) :
    (∃ home left, workspace.PutsAt path name home ∧
      workspace.reach creates path (stepsOf path) =
        workspace.tree.follow creates left [.down name] home) ∨
    (∀ home, ¬ workspace.PutsAt path name home) ∧
      ∃ cause, workspace.reach creates path (stepsOf path) = .error cause := by
  obtain ⟨slashes, _, none, steps⟩ := Approach.steps_split last
  rw [none bare] at steps
  by_cases passes : '\x00' ∉ path.toList ∧ path ≠ "" ∧ path.utf8ByteSize < pathLimit
  · -- The text as a whole is none that the system refuses.
    obtain ⟨pure, present, short⟩ := passes
    have judged : ∀ creates steps, workspace.reach creates path steps =
        workspace.tree.follow creates linkLimit steps (routeStart workspace.here path) := by
      intro creates steps
      rw [reach, if_neg (by simpa using pure), if_neg (by simpa using present),
        if_neg (Nat.not_le.mpr short)]
    have puts_iff : ∀ home, workspace.PutsAt path name home ↔
        workspace.tree.follow false linkLimit
          ((Approach.ofSteps (stepsOf path)).leading ++ [.slash])
          (routeStart workspace.here path) = .ok home := by
      intro home
      rw [PutsAt, homeOf, judged]
      exact and_iff_left ⟨last, bare⟩
    obtain ⟨home, left, marked, onward⟩ | ⟨astray, cause, failed⟩ :=
      workspace.tree.follow_append_name creates linkLimit
        (Approach.ofSteps (stepsOf path)).leading name (routeStart workspace.here path)
    · exact .inl ⟨home, left, (puts_iff home).mpr marked, by rw [judged, steps]; exact onward⟩
    · refine .inr ⟨fun home puts => astray home ((puts_iff home).mp puts), cause, ?_⟩
      rw [judged, steps]
      exact failed
  · refine .inr ⟨fun home puts => ?_, ?_⟩
    · obtain ⟨pure, present, short, _⟩ := reach_eq_ok.mp puts.1
      exact passes ⟨pure, present, short⟩
    · cases reached : workspace.reach creates path (stepsOf path) with
      | error cause => exact ⟨cause, rfl⟩
      | ok place =>
        obtain ⟨pure, present, short, _⟩ := reach_eq_ok.mp reached
        exact absurd ⟨pure, present, short⟩ passes

/-- Where no link stands under its last name, a path leads to the place where it puts a file. -/
theorem reach_of_putsAt (puts : workspace.PutsAt path name home)
    (solid : ∀ target, workspace.tree.get? (name :: home) ≠ some (.link target)) (creates : Bool) :
    workspace.reach creates path (stepsOf path) = .ok (name :: home) := by
  -- The route to the directory is gone first, and the name is one step more.
  obtain ⟨place, left, puts', reached⟩ | ⟨astray, _⟩ :=
    @reach_cases workspace path name creates puts.2.1 puts.2.2
  · obtain rfl := Except.ok.inj (puts'.1.symm.trans puts.1)
    rw [reached, FileTree.follow_name (directory_of_homeOf puts.1) solid]
  · exact absurd puts (astray home)

/-- A path that ends with a name leads to a place in a directory, at which no link stands; it is the
place of that name in the directory before it unless a link stands there. -/
theorem place_of_reach {creates : Bool}
    (last : (Approach.ofSteps (stepsOf path)).last = .down name)
    (bare : (Approach.ofSteps (stepsOf path)).slashed = false)
    (reached : workspace.reach creates path (stepsOf path) = .ok place) :
    workspace.tree.get? place.tail = some .directory ∧
      ∃ home, workspace.PutsAt path name home ∧
        (place = name :: home ↔
          ∀ target, workspace.tree.get? (name :: home) ≠ some (.link target)) := by
  -- The route is that to the directory with the name as its last step.
  obtain ⟨home, left, puts, onward⟩ | ⟨_, cause, failed⟩ :=
    @reach_cases workspace path name creates last bare
  · obtain ⟨plain, above⟩ := FileTree.follow_ends (List.cons_ne_nil _ _) (onward ▸ reached)
    refine ⟨above, home, puts, ?_, fun solid => ?_⟩
    -- A route never ends at a link.
    · rintro rfl
      exact plain
    · exact Except.ok.inj (reached.symm.trans (reach_of_putsAt puts solid creates))
  · rw [failed] at reached
    cases reached

/-- A file is written where its path leads, in a directory and not over one. -/
theorem write_eq_ok :
    workspace.write path content = .ok written ↔
      ∃ name home, workspace.reach true path (stepsOf path) = .ok (name :: home) ∧
        workspace.tree.get? (name :: home) ≠ some .directory ∧
        written = workspace.withEntry name home (.file content) := by
  -- The place is looked for first, and nothing but a directory or the root refuses the file.
  rw [write]
  cases reached : workspace.reach true path (stepsOf path) with
  | error cause => simp [bind, Except.bind]
  | ok place =>
    cases place with
    | nil => simp [bind, Except.bind, throw, throwThe, MonadExceptOf.throw]
    | cons name home =>
      by_cases taken : workspace.tree.get? (name :: home) = some .directory
      · simp [bind, Except.bind, throw, throwThe, MonadExceptOf.throw, taken]
      · simp only [bind, Except.bind, pure, Except.pure, if_neg taken, Except.ok.injEq,
          List.cons.injEq]
        constructor
        · rintro rfl
          exact ⟨name, home, ⟨rfl, rfl⟩, taken, rfl⟩
        · rintro ⟨_, _, ⟨rfl, rfl⟩, _, rfl⟩
          rfl

/-- A file is written where its path puts it when only a file may stand there. -/
theorem write_of_putsAt (puts : workspace.PutsAt path name home)
    (free : ∀ entry, workspace.tree.get? (name :: home) = some entry → ∃ old, entry = .file old) :
    workspace.write path content = .ok (workspace.withEntry name home (.file content)) := by
  -- What stands there is neither a link, which would lead on, nor a directory.
  refine write_eq_ok.mpr ⟨name, home, reach_of_putsAt puts (fun target link => ?_) true, ?_, rfl⟩
  · obtain ⟨old, other⟩ := free _ link
    cases other
  · intro taken
    obtain ⟨old, other⟩ := free _ taken
    cases other

/-- A path leads to an entry when one stands at the place that it leads to. -/
theorem pathExists_of_reach (reached : workspace.reach false path (stepsOf path) = .ok place) :
    workspace.pathExists path = (workspace.tree.get? place).isSome := by
  -- A path that is found has an entry at its place, and one that is not has none.
  rw [pathExists, find, reached]
  cases found : workspace.tree.get? place with
  | none => simp [bind, Except.bind, found, throw, throwThe, MonadExceptOf.throw]
  | some entry => simp [bind, Except.bind, found, pure, Except.pure]

end Workspace

end Stocktake
