import Stocktake.Proofs.FileTree.Passage
import Stocktake.Proofs.Walk.Spelling

/-! From a root, the path of a chain leads down its names, to the file at the end of it. -/

namespace Stocktake

namespace Workspace

variable {workspace : Workspace} {root : String} {base : Location} {entry : Entry}

/-- The path of a chain has steps that lead to its root, and then goes on down its names. -/
theorem exists_front (here : workspace.find root = .ok (base, entry)) {chain : Chain}
    (deeper : chain ≠ []) :
    ∃ front, stepsOf (walkedPath root chain) = front ++ stepsDown chain ∧
      workspace.tree.follow false linkLimit front (routeStart workspace.here root) = .ok base := by
  -- A slash behind the root marks it as a directory only.
  obtain ⟨_, present, _, followed⟩ := reach_eq_ok.mp (find_eq_ok.mp here).1
  obtain ⟨front, same, steps⟩ := stepsOf_walkedPath present deeper
  refine ⟨front, steps, ?_⟩
  obtain same | same := same
  · rwa [same] at followed
  · rw [same] at followed
    exact (FileTree.follow_append_slash.mp followed).1

/-- From an entry at a root, the path of a chain goes on down its names. -/
theorem reach_walkedPath (here : workspace.find root = .ok (base, entry)) {chain : Chain}
    (deeper : chain ≠ []) (short : (walkedPath root chain).utf8ByteSize < pathLimit) :
    ∃ left, workspace.reach false (walkedPath root chain) (stepsOf (walkedPath root chain)) =
      workspace.tree.follow false left (stepsDown chain) base := by
  obtain ⟨reached, stands⟩ := find_eq_ok.mp here
  obtain ⟨pure, present, _, _⟩ := reach_eq_ok.mp reached
  obtain ⟨front, steps, followed⟩ := exists_front here deeper
  obtain ⟨left, goesOn⟩ := FileTree.follow_append followed (Option.isSome_of_mem stands)
  refine ⟨left, ?_⟩
  -- The text passes as a whole, and the route to the root is gone first.
  have null := null_not_mem_walkedPath present pure chain
  have filled := walkedPath_ne_empty present chain
  rw [reach, if_neg (by simpa using null), if_neg (by simpa using filled),
    if_neg (Nat.not_le.mpr short), routeStart_walkedPath present, steps, goesOn]

/-- On the way of a chain's path are all places from its root down to its entry. -/
theorem mem_way_walkedPath (here : workspace.find root = .ok (base, entry)) {inner outer : Chain}
    (present : (workspace.tree.get? (inner ++ outer ++ base)).isSome) :
    outer ++ base ∈ workspace.way (walkedPath root (inner ++ outer)) := by
  -- The steps of a chain go down from its root one by one.
  by_cases deeper : inner ++ outer = []
  · obtain ⟨rfl, rfl⟩ := List.append_eq_nil_iff.mp deeper
    exact mem_way_of_find here
  · obtain ⟨_, filled, _, _⟩ := reach_eq_ok.mp (find_eq_ok.mp here).1
    obtain ⟨front, steps, followed⟩ := exists_front here deeper
    rw [way, steps, routeStart_walkedPath filled]
    exact FileTree.sights_subset_passed followed _ (FileTree.mem_sights_downs present)

/-- Below an entry at a root, a path leads to the file that stands at the end of its chain. -/
theorem find_walkedPath (here : workspace.find root = .ok (base, entry)) {chain : Chain}
    {last : Entry} (stands : workspace.tree.get? (chain ++ base) = some last)
    (solid : ∀ target, last ≠ .link target)
    (short : (walkedPath root chain).utf8ByteSize < pathLimit) :
    workspace.find (walkedPath root chain) = .ok (chain ++ base, last) := by
  -- The root itself is found already, and any other entry down its chain.
  cases chain with
  | nil =>
    obtain rfl : entry = last := Option.some.inj ((find_eq_ok.mp here).2.symm.trans stands)
    exact here
  | cons name chain =>
    obtain ⟨left, reached⟩ := reach_walkedPath here (List.cons_ne_nil name chain) short
    refine find_eq_ok.mpr ⟨?_, stands⟩
    rw [reached]
    exact FileTree.follow_downs stands solid left

/-- Only a path that stays below the limit leads to a file. -/
theorem short_of_isFile {path : String} (leads : workspace.isFile path) :
    path.utf8ByteSize < pathLimit := by
  -- A path of that length is refused before it is followed.
  rw [isFile] at leads
  split at leads
  · rename_i place content found
    exact (reach_eq_ok.mp (find_eq_ok.mp found).1).2.2.1
  · simp at leads

/-- A path leads to a file when its chain ends at one, or at a link that leads to one. -/
theorem isFile_walkedPath (here : workspace.find root = .ok (base, entry)) {chain : Chain}
    (stands : (workspace.tree.get? (chain ++ base)).isSome) :
    workspace.isFile (walkedPath root chain) ↔
      ((∃ content, workspace.tree.get? (chain ++ base) = some (.file content)) ∨
        (∃ target, workspace.tree.get? (chain ++ base) = some (.link target)) ∧
          workspace.isFile (walkedPath root chain)) ∧
      (walkedPath root chain).utf8ByteSize < pathLimit := by
  -- What stands at the end of the chain decides, except that a link is followed.
  obtain ⟨last, stands⟩ := Option.isSome_iff_exists.mp stands
  cases last with
  | link target =>
    rw [stands]
    refine ⟨fun leads => ⟨.inr ⟨⟨target, rfl⟩, leads⟩, short_of_isFile leads⟩, ?_⟩
    rintro ⟨⟨content, wrong⟩ | ⟨_, leads⟩, _⟩
    · simp at wrong
    · exact leads
  | file content =>
    rw [stands]
    refine ⟨fun leads => ⟨.inl ⟨content, rfl⟩, short_of_isFile leads⟩, fun ⟨_, short⟩ => ?_⟩
    rw [isFile, find_walkedPath here stands (by simp) short]
  | directory =>
    rw [stands]
    refine ⟨fun leads => ?_, ?_⟩
    · rw [isFile, find_walkedPath here stands (by simp) (short_of_isFile leads)] at leads
      simp at leads
    · rintro ⟨⟨content, wrong⟩ | ⟨⟨target, wrong⟩, _⟩, _⟩ <;> simp at wrong

end Workspace

end Stocktake
