import Stocktake.FileTree.Node

/-! A file tree is a directory of files, links and further directories, each under its name. -/

namespace Stocktake

/-- A tree is a directory in which no name is ambiguous. -/
structure FileTree where
  root : FileNode
  rooted : root.entry = .directory
  sound : root.Sound

namespace FileTree

/-- The tree that has only its root. -/
def empty : FileTree where
  root := .directory []
  rooted := rfl
  sound := by simp [FileNode.Sound, FileNode.AllSound]

/-- What stands at a place of a tree. -/
def get? (tree : FileTree) (place : Location) : Option Entry :=
  (tree.root.at? place).map FileNode.entry

/-- Below the root of the empty tree nothing stands. -/
theorem get?_empty {name : EntryName} {home : Location} : empty.get? (name :: home) = none := by
  suffices bare : ∀ home name, empty.root.at? (name :: home) = none by
    rw [get?, bare home name, Option.map_none]
  intro home
  induction home with
  | nil => exact fun _ => rfl
  | cons above home ih =>
    -- What is not there has no members.
    intro name
    rw [FileNode.at?, ih above, Option.bind_none]

/-- An entry may be put into a directory where no other directory has its name. -/
def Fits (tree : FileTree) (name : EntryName) (home : Location) : Prop :=
  tree.get? home = some .directory ∧ tree.get? (name :: home) ≠ some .directory

/-- A tree with the members of one of its directories changed. -/
def alterDirectory (tree : FileTree) (home : Location)
    (change : List (EntryName × FileNode) → List (EntryName × FileNode))
    (distinct : ∀ {members : List (EntryName × FileNode)}, (members.map Prod.fst).Nodup →
      ((change members).map Prod.fst).Nodup)
    (sound : ∀ {members : List (EntryName × FileNode)}, FileNode.AllSound members →
      FileNode.AllSound (change members)) : FileTree where
  root := tree.root.alter home (FileNode.mapMembers change)
  rooted := by
    have top := tree.rooted
    cases home with
    | nil => rw [FileNode.alter, FileNode.entry_mapMembers, top]
    | cons name home =>
      have outside : ¬ name :: home <:+ [] := by simp
      have kept := FileNode.entry_at?_alter outside (FileNode.entry_mapMembers change) tree.root
      simpa [FileNode.at?, top] using kept
  sound := tree.sound.alter fun {node} found => by
    cases node with
    | directory members => exact ⟨distinct found.1, sound found.2⟩
    | _ => trivial

/-- Puts an entry into a directory; what stands there under its name gives way. -/
def put (tree : FileTree) (name : EntryName) (home : Location) (entry : Entry) : FileTree :=
  tree.alterDirectory home (OrderedMap.put name (.ofEntry entry))
    (fun {members} distinct => by
      rw [OrderedMap.map_fst_put]
      split
      · exact distinct
      · rename_i absent
        refine List.nodup_append.mpr ⟨distinct, by simp, fun one member other last => ?_⟩
        rw [List.mem_singleton.mp last]
        exact fun same => absent (same ▸ member))
    (FileNode.AllSound.put (FileNode.sound_ofEntry entry))

/-- Takes an entry away with everything below it; the root stays. -/
def remove (tree : FileTree) : Location → FileTree
  | [] => tree
  | name :: home =>
    tree.alterDirectory home (List.filter (·.1 ≠ name))
      (fun distinct => distinct.sublist (List.filter_sublist.map Prod.fst))
      (FileNode.AllSound.filter _)

/-- A change of a directory's members shows in them and below them only. -/
theorem get?_alterDirectory_outside {tree : FileTree} {home place : Location}
    (outside : ¬ home <:+ place ∨ place = home)
    {change : List (EntryName × FileNode) → List (EntryName × FileNode)} :
    ((tree.root.alter home (FileNode.mapMembers change)).at? place).map FileNode.entry =
      tree.get? place := by
  -- Away from the directory nothing moves, and at it only the members do, which no entry shows.
  rcases outside with apart | rfl
  · exact FileNode.entry_at?_alter apart (FileNode.entry_mapMembers change) tree.root
  · have here := FileNode.at?_alter [] place (FileNode.mapMembers change) tree.root
    rw [List.nil_append] at here
    rw [here, get?]
    cases tree.root.at? place <;> simp [FileNode.at?, FileNode.entry_mapMembers]

/-- Where a directory stands, its members are found by their names. -/
theorem exists_members {tree : FileTree} {home : Location}
    (directory : tree.get? home = some .directory) :
    ∃ members, tree.root.at? home = some (.directory members) ∧
      ∀ (rest : Location) (last : EntryName), tree.get? (rest ++ last :: home) =
        ((OrderedMap.lookup last members).bind (FileNode.at? rest)).map FileNode.entry := by
  -- A place below the directory is reached through one member, the one with the right name.
  obtain ⟨node, found, top⟩ := Option.map_eq_some_iff.mp directory
  cases node with
  | directory members =>
    refine ⟨members, found, fun rest last => ?_⟩
    simp [get?, FileNode.at?_append, FileNode.at?, found, FileNode.member?, FileNode.members]
  | _ => simp [FileNode.entry] at top

/-- The changed members of a directory are found by their names, too. -/
theorem get?_alterDirectory_below {tree : FileTree} {home : Location}
    {members : List (EntryName × FileNode)}
    (found : tree.root.at? home = some (.directory members))
    (change : List (EntryName × FileNode) → List (EntryName × FileNode)) (rest : Location)
    (last : EntryName) :
    ((tree.root.alter home (FileNode.mapMembers change)).at? (rest ++ last :: home)).map
        FileNode.entry =
      ((OrderedMap.lookup last (change members)).bind (FileNode.at? rest)).map
        FileNode.entry := by
  -- The way down leads through the changed directory, whose new members answer for the last name.
  have step := FileNode.at?_alter (rest ++ [last]) home (FileNode.mapMembers change) tree.root
  simp only [List.append_assoc, List.singleton_append] at step
  rw [step]
  simp [found, FileNode.mapMembers, FileNode.at?_append, FileNode.at?, FileNode.member?,
    FileNode.members]

/-- At the place itself a node is found. -/
theorem bind_at?_nil (found : Option FileNode) : found.bind (FileNode.at? []) = found := by
  -- The empty way down stays where it starts.
  cases found <;> rfl

/-- Below anything but a directory nothing is found. -/
theorem bind_at?_eq_none {rest : Location} (deeper : rest ≠ []) {found : Option FileNode}
    (bare : found.map FileNode.entry ≠ some .directory) :
    found.bind (FileNode.at? rest) = none := by
  -- Only directories have members, and going down needs a member at its first step.
  cases found with
  | none => rfl
  | some node =>
    refine FileNode.at?_eq_none deeper ?_
    cases node <;> simp_all [FileNode.entry, FileNode.members]

/-- Putting an entry where it fits shows at its place only. -/
theorem get?_put {tree : FileTree} {name : EntryName} {home : Location} {entry : Entry}
    (fits : tree.Fits name home) (place : Location) :
    (tree.put name home entry).get? place =
      if place = name :: home then some entry else tree.get? place := by
  -- Only places strictly below the directory can change, and of those only what has the new name.
  by_cases within : home <:+ place
  · obtain ⟨below, rfl⟩ := within
    rcases List.eq_nil_or_concat below with rfl | ⟨rest, last, rfl⟩
    · rw [if_neg (by simp)]
      exact get?_alterDirectory_outside (.inr rfl)
    · obtain ⟨members, found, below⟩ := exists_members fits.1
      have shape : rest.concat last ++ home = rest ++ last :: home := by simp
      -- Below the new entry nothing can have stood, since what gave way was no directory.
      have free := fits.2
      rw [← List.nil_append (name :: home), below, bind_at?_nil] at free
      rw [shape, below, get?, put, alterDirectory, get?_alterDirectory_below found,
        OrderedMap.lookup_put]
      by_cases same : last = name
      · subst same
        by_cases top : rest = []
        · simp [top, FileNode.at?, FileNode.entry_ofEntry]
        · have apart : rest ++ last :: home ≠ last :: home := by simpa using top
          rw [if_neg apart, bind_at?_eq_none top free]
          simp [FileNode.at?_eq_none top (FileNode.members_ofEntry entry)]
      · have apart : rest ++ last :: home ≠ name :: home := by
          intro equal
          have lengths := congrArg List.length equal
          have short : rest = [] := by
            simpa using lengths
          simp [short, same] at equal
        rw [if_neg same, if_neg apart]
  · have other : place ≠ name :: home := by
      rintro rfl
      exact within (List.suffix_cons name home)
    rw [if_neg other]
    exact get?_alterDirectory_outside (.inl within)

/-- A tree is told by its root. -/
theorem eq_of_root {one other : FileTree} (same : one.root = other.root) : one = other := by
  -- Beside its root a tree holds only a proof.
  cases one
  cases other
  cases same
  rfl

/-- An entry put under a free name and taken away again leaves the tree as it was. -/
theorem remove_put {tree : FileTree} {name : EntryName} {home : Location} (entry : Entry)
    (free : tree.get? (name :: home) = none) :
    (tree.put name home entry).remove (name :: home) = tree := by
  -- Both changes are made in one directory, whose members are then as they were.
  refine eq_of_root ?_
  simp only [remove, put, alterDirectory, FileNode.alter_alter]
  refine FileNode.alter_eq_self tree.sound fun found above => ?_
  cases found with
  | directory members =>
    have absent : OrderedMap.lookup name members = none := by
      simpa [get?, FileNode.at?, Option.mem_def.mp above, FileNode.member?, FileNode.members]
        using free
    simp only [Function.comp, FileNode.mapMembers]
    rw [OrderedMap.filter_put absent]
  | _ => rfl

/-- The places that a tree has besides its root. -/
def places (tree : FileTree) : List Location :=
  tree.root.placesBelow []

end FileTree

end Stocktake
