import Stocktake.Proofs.FileTree.Passage

/-! A file that is put at a place counts for the paths that come to the place, and for no others. -/

namespace Stocktake

namespace FileTree

variable {tree other : FileTree} {spot : Location} {content : Bytes}

section NewFile

variable
  (shown : ∀ place, other.get? place =
    if place = spot then some (.file content) else tree.get? place)
  (free : tree.get? spot ≠ some .directory)
  (plain : ∀ target, tree.get? spot ≠ some (.link target))
include shown free plain

/-- Where no link gives way to a new file, a route goes the same way up to its first link, or it is
blocked with the file and without. -/
theorem advance_of_new_file (steps : List Step) (start : Location) :
    other.advance false steps start = tree.advance false steps start ∨
      (∃ cause, other.advance false steps start = .blocked cause) ∧
        ∃ cause, tree.advance false steps start = .blocked cause := by
  induction steps generalizing start with
  | nil => simp
  | cons step steps ih =>
    by_cases inside : tree.get? start = some .directory
    · have apart : start ≠ spot := by
        rintro rfl
        exact free inside
      have inside' : other.get? start = some .directory := by rw [shown, if_neg apart, inside]
      cases step with
      | slash =>
        rw [advance_idle inside _ (.inl rfl), advance_idle inside' _ (.inl rfl)]
        exact ih start
      | stay =>
        rw [advance_idle inside _ (.inr rfl), advance_idle inside' _ (.inr rfl)]
        exact ih start
      | up =>
        rw [advance_up inside, advance_up inside']
        exact ih start.tail
      | nowhere => exact .inl (by rw [advance_nowhere inside, advance_nowhere inside'])
      | down name =>
        rw [advance_down inside, advance_down inside']
        simp only [Bool.false_and, Bool.false_eq_true, if_false]
        by_cases here : name :: start = spot
        · -- With the last step the route ends at the file, and any other is blocked there.
          rw [shown, if_pos here]
          dsimp only
          have file : other.get? (name :: start) ≠ some .directory := by
            rw [shown, if_pos here]
            simp
          rw [← here] at free plain
          cases found : tree.get? (name :: start) with
          | none =>
            cases steps with
            | nil => exact .inl (advance_nil false _)
            | cons next steps =>
              exact .inr ⟨⟨_, advance_of_not_directory file _ _ _⟩, _, rfl⟩
          | some entry =>
            cases entry with
            | directory => exact absurd found free
            | link target => exact absurd found (plain target)
            | file former => exact ih (name :: start)
        · rw [shown, if_neg here]
          cases found : tree.get? (name :: start) with
          | none => exact .inl rfl
          | some entry =>
            cases entry with
            | link target => exact .inl rfl
            | _ => exact ih (name :: start)
    · -- The new file is no directory, either.
      have outside : other.get? start ≠ some .directory := by
        rw [shown]
        split
        · simp
        · exact inside
      exact .inl (by rw [advance_of_not_directory inside, advance_of_not_directory outside])

/-- Where no link gives way to a new file, the same routes end at the same places. -/
theorem follow_of_new_file {links : Nat} {steps : List Step} {start place : Location} :
    other.follow false links steps start = .ok place ↔
      tree.follow false links steps start = .ok place := by
  -- Behind a link the route goes on with one link fewer left, and else it is over.
  induction links generalizing steps start with
  | zero =>
    rw [follow, follow]
    obtain same | ⟨⟨cause, blocked⟩, cause', blocked'⟩ :=
      advance_of_new_file shown free plain steps start
    · rw [same]
    · rw [blocked, blocked']
      simp
  | succ links ih =>
    rw [follow, follow]
    obtain same | ⟨⟨cause, blocked⟩, cause', blocked'⟩ :=
      advance_of_new_file shown free plain steps start
    · rw [same]
      cases tree.advance false steps start with
      | arrived there => exact Iff.rfl
      | blocked cause => exact Iff.rfl
      | atLink target home rest => exact ih
    · rw [blocked, blocked']
      simp

end NewFile

/-- A route that takes a name as its last step, and arrives before any link, ends under this name. -/
theorem exists_home_of_arrived {steps : List Step} {name : EntryName} {start place : Location}
    (arrived : tree.advance false (steps ++ [.down name]) start = .arrived place) :
    ∃ home, place = name :: home := by
  -- Each step before the last one only changes where the rest begins.
  induction steps generalizing start with
  | nil =>
    obtain ⟨_, next, leads, ends⟩ := advance_cons_eq_arrived arrived
    rw [advance_nil] at ends
    exact ⟨start, (Advance.arrived.inj ends).symm.trans (Option.some.inj leads).symm⟩
  | cons step steps ih =>
    obtain ⟨_, next, _, onward⟩ := advance_cons_eq_arrived arrived
    exact ih onward

/-- Without links a route does not stop at one. -/
theorem advance_ne_atLink (plain : ∀ place target, tree.get? place ≠ some (.link target))
    {steps rest : List Step} {start home : Location} {target : String} :
    tree.advance false steps start ≠ .atLink target home rest := by
  induction steps generalizing start with
  | nil => simp
  | cons step steps ih =>
    obtain ⟨next, goes⟩ | ⟨_, ⟨_, link⟩, _⟩ | ⟨cause, blocks⟩ | ⟨last, _, ends, misses⟩ :=
      tree.advance_cases step start
    · rw [goes]
      exact ih
    · -- A step that stops at a link needs one to stand somewhere.
      exact absurd link (plain _ _)
    · simp [blocks]
    · cases steps <;> simp [ends, misses]

end FileTree

namespace Workspace

variable {before after : Workspace} {path : String} {spot place : Location} {content : Bytes}

/-- A path comes to a place: its route ends there, or goes through a link that stands there. -/
def Meets (workspace : Workspace) (path : String) (place : Location) : Prop :=
  workspace.reach false path (stepsOf path) = .ok place ∨
    (∃ target, workspace.tree.get? place = some (.link target)) ∧ place ∈ workspace.way path

/-- Without links, a path comes to a place only when it ends there. -/
theorem meets_iff_of_plain {workspace : Workspace}
    (plain : ∀ place target, workspace.tree.get? place ≠ some (.link target)) :
    workspace.Meets path place ↔ workspace.reach false path (stepsOf path) = .ok place := by
  -- The other way to come to a place is to be stopped there by a link.
  rw [Meets]
  refine or_iff_left ?_
  rintro ⟨⟨target, link⟩, _⟩
  exact plain _ target link

/-- Without links, a path whose last step is a name ends under this name. -/
theorem exists_home_of_reach {workspace : Workspace}
    (plain : ∀ place target, workspace.tree.get? place ≠ some (.link target)) {front : List Step}
    {name : EntryName} (steps : stepsOf path = front ++ [.down name])
    (reached : workspace.reach false path (stepsOf path) = .ok place) :
    ∃ home, place = name :: home := by
  have followed := (reach_eq_ok.mp reached).2.2.2
  rw [steps] at followed
  -- The route arrives without having passed a link.
  obtain arrived | ⟨_, _, _, _, _, stopped, _⟩ := FileTree.follow_eq_ok.mp followed
  · exact FileTree.exists_home_of_arrived arrived
  · exact absurd stopped (FileTree.advance_ne_atLink plain)

/-- A file comes to stand at a place where no directory stood, and everything else stays. -/
structure Gains (before after : Workspace) (spot : Location) (content : Bytes) : Prop where
  here : after.here = before.here
  shown : ∀ place, after.tree.get? place =
    if place = spot then some (.file content) else before.tree.get? place
  free : before.tree.get? spot ≠ some .directory

namespace Gains

/-- A path that does not come to a new file is reached as before. -/
theorem reach_eq_ok_iff (gains : before.Gains after spot content)
    (apart : ¬ before.Meets path spot) :
    after.reach false path (stepsOf path) = .ok place ↔
      before.reach false path (stepsOf path) = .ok place := by
  rw [reach_eq_ok, reach_eq_ok, gains.here]
  by_cases link : ∃ target, before.tree.get? spot = some (.link target)
  · -- The link that gives way is not on the way, where all else is as before.
    have beside : spot ∉ before.way path := fun member => apart (.inr ⟨link, member⟩)
    rw [FileTree.follow_eq_of_passed fun passed member => ?_]
    rw [gains.shown, if_neg]
    rintro rfl
    exact beside member
  · have plain : ∀ target, before.tree.get? spot ≠ some (.link target) :=
      fun target found => link ⟨target, found⟩
    rw [FileTree.follow_of_new_file gains.shown gains.free plain]

/-- A path that does not come to a new file leads to the same entry as before. -/
theorem find_eq_ok_iff (gains : before.Gains after spot content) (apart : ¬ before.Meets path spot)
    {entry : Entry} :
    after.find path = .ok (place, entry) ↔ before.find path = .ok (place, entry) := by
  rw [find_eq_ok, find_eq_ok, gains.reach_eq_ok_iff apart]
  -- The path ends beside the new file.
  refine and_congr_right fun reached => ?_
  rw [gains.shown, if_neg]
  rintro rfl
  exact apart (.inl reached)

/-- A path that has not come to the place of a new file does not come to it later. -/
theorem not_meets (gains : before.Gains after spot content) (apart : ¬ before.Meets path spot) :
    ¬ after.Meets path spot := by
  rintro (reached | ⟨⟨target, link⟩, _⟩)
  · exact apart (.inl ((gains.reach_eq_ok_iff apart).mp reached))
  · -- A file has taken the place of a link.
    rw [gains.shown, if_pos rfl] at link
    simp at link

end Gains

end Workspace

end Stocktake
