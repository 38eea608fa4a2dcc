import Stocktake.Proofs.FileTree.Route
import Stocktake.Walk

/-! A walk comes to each entry that is open to it, down from the root, and once. -/

namespace Stocktake

/-- Chains to entries of one directory tell their first names apart. -/
private theorem append_cons_inj {inner inner' outer : Chain} {last last' : EntryName}
    (same : inner ++ last :: outer = inner' ++ last' :: outer) : inner = inner' ∧ last = last' := by
  -- What stands above is the same on both sides and is taken off.
  have apart : (inner ++ [last]) ++ outer = (inner' ++ [last']) ++ outer := by simpa using same
  exact List.append_singleton_inj.mp (List.append_cancel_right apart)

namespace Workspace

/-- The ignore files for the members of the directory at the end of a chain. -/
def ignoresAt (workspace : Workspace) (rules : WalkRules) (root : String) : Chain → IgnoreStack
  | [] => workspace.ignoresWithin rules root []
  | name :: outer =>
    workspace.ignoresWithin rules (walkedPath root (name :: outer))
      (workspace.ignoresAt rules root outer)

/-- On a chain from a root stand entries that are all open to a walk. -/
def IsReached (workspace : Workspace) (rules : WalkRules) (root : String) (base : Location) :
    Chain → Prop
  | [] => True
  | name :: outer =>
    workspace.IsReached rules root base outer ∧
      ∃ entry, workspace.tree.get? (name :: outer ++ base) = some entry ∧
        isOpen (workspace.ignoresAt rules root outer) (walkedPath root (name :: outer)) name entry

variable {workspace : Workspace} {rules : WalkRules} {root : String} {base : Location}

/-- What is reached is reached by way of all entries above it. -/
theorem IsReached.above {inner outer : Chain}
    (reached : workspace.IsReached rules root base (inner ++ outer)) :
    workspace.IsReached rules root base outer := by
  -- Names are left off one at a time.
  induction inner with
  | nil => exact reached
  | cons name inner ih => exact ih reached.1

/-- What is reached by a name stands there. -/
theorem IsReached.present {chain : Chain} (reached : workspace.IsReached rules root base chain)
    (stands : (workspace.tree.get? base).isSome) :
    (workspace.tree.get? (chain ++ base)).isSome := by
  -- The last name was open, which only an entry is.
  cases chain with
  | nil => exact stands
  | cons name outer =>
    obtain ⟨_, entry, found, _⟩ := reached
    exact Option.isSome_of_mem found

/-- By way of an entry, a walk comes to the entry and below it, if that is open. -/
private theorem chainsByWay_spec {name : EntryName} {outer : Chain} {entry : Entry}
    {chains below : List Chain} (reached : workspace.IsReached rules root base outer)
    (stands : workspace.tree.get? (name :: outer ++ base) = some entry)
    (spec : workspace.IsReached rules root base (name :: outer) →
      (∀ chain, chain ∈ below ↔ workspace.IsReached rules root base chain ∧
        ∃ inner last, chain = inner ++ last :: name :: outer) ∧ below.Nodup)
    (listed : chains = if isOpen (workspace.ignoresAt rules root outer)
      (walkedPath root (name :: outer)) name entry then (name :: outer) :: below else []) :
    (∀ chain, chain ∈ chains ↔ workspace.IsReached rules root base chain ∧
      ∃ inner, chain = inner ++ name :: outer) ∧ chains.Nodup := by
  -- A walk enters what is open, and nothing below what is closed.
  rw [listed]
  split
  · rename_i opened
    have next : workspace.IsReached rules root base (name :: outer) :=
      ⟨reached, entry, stands, opened⟩
    obtain ⟨inside, once⟩ := spec next
    refine ⟨fun chain => ?_, List.nodup_cons.mpr ⟨fun again => ?_, once⟩⟩
    · rw [List.mem_cons, inside]
      constructor
      · rintro (rfl | ⟨further, inner, last, rfl⟩)
        · exact ⟨next, [], rfl⟩
        · exact ⟨further, inner ++ [last], by simp⟩
      · rintro ⟨further, inner, rfl⟩
        rcases List.eq_nil_or_concat inner with rfl | ⟨deeper, last, rfl⟩
        · exact .inl rfl
        · exact .inr ⟨further, deeper, last, by simp⟩
    · -- What stands below an entry is reached by longer chains.
      obtain ⟨_, inner, last, same⟩ := (inside _).mp again
      have lengths := congrArg List.length same
      simp only [List.length_cons, List.length_append] at lengths
      omega
  · rename_i closed
    refine ⟨fun chain => iff_of_false List.not_mem_nil ?_, List.nodup_nil⟩
    rintro ⟨further, inner, rfl⟩
    obtain ⟨_, found, there, opened⟩ := further.above
    obtain rfl := Option.some.inj (stands.symm.trans there)
    exact closed opened

mutual

/-- Below a node, a walk comes to the longer chains that are reached, each once. -/
theorem chainsBelow_spec {ignores : IgnoreStack} {outer : Chain}
    (same : workspace.ignoresWithin rules (walkedPath root outer) ignores =
      workspace.ignoresAt rules root outer)
    (reached : workspace.IsReached rules root base outer) (node : FileNode) (sound : node.Sound)
    (found : workspace.tree.root.at? (outer ++ base) = some node) :
    (∀ chain, chain ∈ workspace.chainsBelow rules root ignores outer node ↔
        workspace.IsReached rules root base chain ∧
          ∃ inner last, chain = inner ++ last :: outer) ∧
      (workspace.chainsBelow rules root ignores outer node).Nodup := by
  -- What is reached by a further name is a member of a directory.
  have member : ∀ inner last, workspace.IsReached rules root base (inner ++ last :: outer) →
      ∃ inside, node.member? last = some inside := by
    intro inner last further
    obtain ⟨_, entry, stands, _⟩ := further.above
    obtain ⟨inside, here, _⟩ := Option.map_eq_some_iff.mp stands
    rw [List.cons_append, FileNode.at?, found] at here
    exact ⟨inside, here⟩
  cases node with
  | directory members =>
    have inside : ∀ last, workspace.tree.root.at? (last :: outer ++ base) =
        OrderedMap.lookup last members := by
      intro last
      rw [List.cons_append, FileNode.at?, found]
      rfl
    obtain ⟨among, once⟩ := chainsAmong_spec reached members sound.1 sound.2
      fun last _ => inside last
    rw [chainsBelow, same]
    refine ⟨fun chain => ?_, once⟩
    rw [among]
    constructor
    · rintro ⟨further, inner, last, shape, _⟩
      exact ⟨further, inner, last, shape⟩
    · rintro ⟨further, inner, last, rfl⟩
      refine ⟨further, inner, last, rfl, ?_⟩
      refine Decidable.byContradiction fun absent => ?_
      obtain ⟨_, here⟩ := member inner last further
      simp [FileNode.member?, FileNode.members, OrderedMap.lookup_eq_none absent] at here
  | _ =>
    refine ⟨fun chain => ?_, List.nodup_nil⟩
    rw [chainsBelow.eq_def]
    refine iff_of_false (List.not_mem_nil) ?_
    rintro ⟨further, inner, last, rfl⟩
    obtain ⟨_, here⟩ := member inner last further
    simp [FileNode.member?, FileNode.members, OrderedMap.lookup] at here

/-- Among members of a directory, a walk comes to the chains by way of them that are reached. -/
theorem chainsAmong_spec {outer : Chain} (reached : workspace.IsReached rules root base outer)
    (members : List (EntryName × FileNode)) (distinct : (members.map Prod.fst).Nodup)
    (sound : FileNode.AllSound members)
    (found : ∀ last ∈ members.map Prod.fst,
      workspace.tree.root.at? (last :: outer ++ base) = OrderedMap.lookup last members) :
    (∀ chain,
        chain ∈ workspace.chainsAmong rules root (workspace.ignoresAt rules root outer) outer
            members ↔
          workspace.IsReached rules root base chain ∧
            ∃ inner last, chain = inner ++ last :: outer ∧ last ∈ members.map Prod.fst) ∧
      (workspace.chainsAmong rules root (workspace.ignoresAt rules root outer) outer
        members).Nodup := by
  cases members with
  | nil => simp [chainsAmong]
  | cons member members =>
    obtain ⟨name, node⟩ := member
    obtain ⟨fresh, others⟩ := List.nodup_cons.mp distinct
    have here : workspace.tree.root.at? (name :: outer ++ base) = some node := by
      rw [found name List.mem_cons_self, OrderedMap.lookup, if_pos rfl]
    have stands : workspace.tree.get? (name :: outer ++ base) = some node.entry := by
      rw [FileTree.get?, here]
      rfl
    have elsewhere : ∀ last ∈ members.map Prod.fst,
        workspace.tree.root.at? (last :: outer ++ base) = OrderedMap.lookup last members := by
      intro last member
      have apart : name ≠ last := fun equal => fresh (equal ▸ member)
      rw [found last (List.mem_cons_of_mem _ member), OrderedMap.lookup, if_neg apart]
    obtain ⟨among, amongOnce⟩ := chainsAmong_spec reached members others sound.2 elsewhere
    obtain ⟨own, ownOnce⟩ := chainsByWay_spec reached stands
      (fun next => chainsBelow_spec rfl next node sound.1 here) rfl
    rw [chainsAmong]
    refine ⟨fun chain => ?_, List.nodup_append.mpr ⟨ownOnce, amongOnce, ?_⟩⟩
    · rw [List.mem_append, own, among]
      constructor
      · rintro (⟨further, inner, shape⟩ | ⟨further, inner, last, shape, member⟩)
        · exact ⟨further, inner, name, shape, List.mem_cons_self⟩
        · exact ⟨further, inner, last, shape, List.mem_cons_of_mem _ member⟩
      · rintro ⟨further, inner, last, shape, member⟩
        rcases List.mem_cons.mp member with rfl | member
        · exact .inl ⟨further, inner, shape⟩
        · exact .inr ⟨further, inner, last, shape, member⟩
    · rintro one mine other rest rfl
      -- The name behind those of the outer chain tells the members apart.
      obtain ⟨_, inner, shape⟩ := (own one).mp mine
      obtain ⟨_, inner', last, shape', member⟩ := (among one).mp rest
      obtain ⟨_, rfl⟩ := append_cons_inj (shape.symm.trans shape')
      exact fresh member

end

/-- A walk comes to the chains on which all entries are open, each once. -/
theorem reachedChains_spec (stands : (workspace.tree.get? base).isSome) :
    (∀ chain, chain ∈ workspace.reachedChains rules root base ↔
        workspace.IsReached rules root base chain) ∧
      (workspace.reachedChains rules root base).Nodup := by
  -- The root is reached without a name, and everything else below it.
  obtain ⟨entry, stands⟩ := Option.isSome_iff_exists.mp stands
  obtain ⟨node, found, _⟩ := Option.map_eq_some_iff.mp stands
  have listed : workspace.reachedChains rules root base =
      [] :: workspace.chainsBelow rules root [] [] node := by
    rw [reachedChains, found]
  obtain ⟨below, once⟩ := @chainsBelow_spec workspace rules root base [] [] rfl trivial node
    (workspace.tree.sound.at? found) found
  rw [listed]
  refine ⟨fun chain => ?_, List.nodup_cons.mpr ⟨fun again => ?_, once⟩⟩
  · rw [List.mem_cons, below]
    constructor
    · rintro (rfl | ⟨further, _⟩)
      · trivial
      · exact further
    · intro further
      rcases List.eq_nil_or_concat chain with rfl | ⟨inner, last, rfl⟩
      · exact .inl rfl
      · exact .inr ⟨further, inner, last, by simp⟩
  · obtain ⟨_, inner, last, same⟩ := (below []).mp again
    simp at same

end Workspace

/-- No name of a chain begins with a dot. -/
def Visible (chain : Chain) : Prop :=
  ∀ name ∈ chain, Path.isHidden name.text = false

namespace Workspace

variable {workspace : Workspace} {rules : WalkRules} {root : String} {base : Location}

/-- Without ignore files, what is reached are the entries on visible names. -/
theorem isReached_of_quiet (quiet : rules.respectGitignore = false)
    (stands : (workspace.tree.get? base).isSome) {chain : Chain} :
    workspace.IsReached rules root base chain ↔
      Visible chain ∧ (workspace.tree.get? (chain ++ base)).isSome := by
  -- No ignore file speaks anywhere, so that only hidden names are closed.
  have silent : ∀ outer, workspace.ignoresAt rules root outer = [] := by
    intro outer
    cases outer <;> simp [ignoresAt, ignoresWithin, quiet]
  induction chain with
  | nil => simpa [IsReached, Visible] using stands
  | cons name outer ih =>
    have shown : ∀ entry, isOpen [] (walkedPath root (name :: outer)) name entry ↔
        Path.isHidden name.text = false := by
      intro entry
      change (!Path.isHidden name.text) = true ↔ _
      simp
    simp only [IsReached, ih, silent, shown, Visible, List.forall_mem_cons]
    constructor
    · rintro ⟨⟨visible, _⟩, entry, found, open'⟩
      exact ⟨⟨open', visible⟩, Option.isSome_of_mem found⟩
    · rintro ⟨⟨open', visible⟩, present⟩
      obtain ⟨entry, found⟩ := Option.isSome_iff_exists.mp present
      have above := FileTree.directory_of_isSome present
      exact ⟨⟨visible, Option.isSome_of_mem above⟩, entry, found, open'⟩

end Workspace

end Stocktake
