import Stocktake.OrderedMap
import Stocktake.Text.Utf8

/-! Files, links, and directories with all that is below them, under names that files can have. -/

namespace Stocktake

/-- The longest name of an entry, in bytes. -/
def nameLimit : Nat :=
  255

/-- A text can name an entry when it spells one step down, is short enough and has no null. -/
def IsEntryName (text : String) : Prop :=
  text ≠ "" ∧ text ≠ "." ∧ text ≠ ".." ∧ '/' ∉ text.toList ∧ '\x00' ∉ text.toList ∧
    (utf8Encode text.toList).length ≤ nameLimit

/-- Whether a text can be the name of an entry is checked character by character. -/
instance (text : String) : Decidable (IsEntryName text) := by
  unfold IsEntryName
  infer_instance

/-- The name of an entry in its directory. -/
structure EntryName where
  text : String
  valid : IsEntryName text
  deriving DecidableEq, Repr

/-- A place in a tree: the names that lead to it from the root, the last of them in front. -/
abbrev Location := List EntryName

/-- What stands at a place. -/
inductive Entry
  | file (content : Bytes)
  | directory
  /-- A link to the place that a path leads to, which need not exist. -/
  | link (target : String)
  deriving DecidableEq, Repr

/-- An entry with everything below it. -/
inductive FileNode
  | file (content : Bytes)
  | link (target : String)
  | directory (members : List (EntryName × FileNode))

namespace FileNode

/-- What stands at the top of a node. -/
def entry : FileNode → Entry
  | .file content => .file content
  | .link target => .link target
  | .directory _ => .directory

/-- The node of a new entry, below which nothing stands. -/
def ofEntry : Entry → FileNode
  | .file content => .file content
  | .link target => .link target
  | .directory => .directory []

/-- The members of a directory; nothing else has any. -/
def members : FileNode → List (EntryName × FileNode)
  | .directory members => members
  | _ => []

/-- The member of a directory under a name. -/
def member? (name : EntryName) (node : FileNode) : Option FileNode :=
  OrderedMap.lookup name node.members

/-- What stands at a place below a node. -/
def at? : Location → FileNode → Option FileNode
  | [], node => some node
  | name :: home, node => (at? home node).bind (member? name)

/-- Changes the members of a directory. -/
def mapMembers (change : List (EntryName × FileNode) → List (EntryName × FileNode)) :
    FileNode → FileNode
  | .directory members => .directory (change members)
  | node => node

/-- Changes the member of a directory under a name. -/
def alterMember (name : EntryName) (change : FileNode → FileNode) : FileNode → FileNode :=
  mapMembers fun members => members.map fun (label, node) =>
    (label, if label = name then change node else node)

/-- Changes what stands at a place. -/
def alter : Location → (FileNode → FileNode) → FileNode → FileNode
  | [], change => change
  | name :: home, change => alter home (alterMember name change)

mutual

/-- In no directory of a node does a name stand twice. -/
def Sound : FileNode → Prop
  | .directory members => (members.map Prod.fst).Nodup ∧ AllSound members
  | _ => True

/-- All members of a directory are sound. -/
def AllSound : List (EntryName × FileNode) → Prop
  | [] => True
  | (_, node) :: members => node.Sound ∧ AllSound members

end

/-- Changing members does not change what stands above them. -/
theorem entry_mapMembers
    (change : List (EntryName × FileNode) → List (EntryName × FileNode)) (node : FileNode) :
    (node.mapMembers change).entry = node.entry := by
  -- An entry tells the kind of a node, and of a directory nothing more than that.
  cases node <;> rfl

/-- A change of one member shows at its name only. -/
theorem member?_alterMember (name other : EntryName) (change : FileNode → FileNode)
    (node : FileNode) :
    (node.alterMember name change).member? other =
      if other = name then (node.member? name).map change else node.member? other := by
  -- Members are looked for one by one, and the change keeps all their names.
  cases node with
  | directory members =>
    simp only [member?, alterMember, mapMembers, FileNode.members]
    induction members with
    | nil => simp [OrderedMap.lookup]
    | cons member members ih =>
      obtain ⟨label, node⟩ := member
      by_cases same : label = name <;> by_cases asked : other = name <;>
        simp_all [OrderedMap.lookup, eq_comm]
  | _ => simp [member?, alterMember, mapMembers, FileNode.members, OrderedMap.lookup]

/-- A place below another is reached by way of it. -/
theorem at?_append (below home : Location) (node : FileNode) :
    at? (below ++ home) node = (at? home node).bind (at? below) := by
  -- Each name of the way down is one more lookup behind those of the place above.
  induction below with
  | nil => simp [at?]
  | cons name below ih => simp [at?, ih, Option.bind_assoc]

/-- Below the place of a change stands what the change puts there. -/
theorem at?_alter (below home : Location) (change : FileNode → FileNode) (node : FileNode) :
    at? (below ++ home) (node.alter home change) =
      (at? home node).bind fun found => at? below (change found) := by
  -- The place of the change is left behind one name at a time, each moved over to the way down.
  induction home generalizing below change with
  | nil => simp [at?, alter]
  | cons name home ih =>
    have apart : below ++ name :: home = (below ++ [name]) ++ home := by simp
    rw [apart, alter, ih]
    simp only [at?, Option.bind_assoc]
    congr 1
    funext found
    simp only [at?_append, at?, member?_alterMember, Option.bind_map, Option.bind_some, ↓reduceIte]
    rfl

/-- A change that keeps what stands at the top of nodes does not show outside of its place. -/
theorem entry_at?_alter {home place : Location} (outside : ¬ home <:+ place)
    {change : FileNode → FileNode} (keeps : ∀ node : FileNode, (change node).entry = node.entry)
    (node : FileNode) :
    (at? place (node.alter home change)).map entry = (at? place node).map entry := by
  induction home generalizing change with
  | nil => exact absurd (List.nil_suffix) outside
  | cons name home ih =>
    rw [alter]
    by_cases within : home <:+ place
    · obtain ⟨below, rfl⟩ := within
      rw [at?_alter, at?_append]
      rcases List.eq_nil_or_concat below with rfl | ⟨rest, last, rfl⟩
      · cases at? home node <;> simp [at?, alterMember, entry_mapMembers]
      · -- The place lies below another member.
        have other : last ≠ name := by
          rintro rfl
          exact outside ⟨rest, by simp⟩
        congr 2
        funext found
        simp [at?_append, at?, member?_alterMember, other]
    · exact ih within fun found => entry_mapMembers _ found

/-- Changing a member soundly keeps a node sound. -/
theorem Sound.alterMember {name : EntryName} {change : FileNode → FileNode}
    (keeps : ∀ {node : FileNode}, node.Sound → (change node).Sound) {node : FileNode}
    (sound : node.Sound) : (node.alterMember name change).Sound := by
  -- The names stay as they are, so only the soundness of the one changed member is asked for.
  cases node with
  | directory members =>
    simp only [Sound, FileNode.alterMember, mapMembers] at sound ⊢
    refine ⟨by simpa [List.map_map, Function.comp_def] using sound.1, ?_⟩
    have all := sound.2
    clear sound
    induction members with
    | nil => trivial
    | cons member members ih =>
      obtain ⟨label, node⟩ := member
      simp only [AllSound, List.map_cons] at all ⊢
      refine ⟨?_, ih all.2⟩
      split
      · exact keeps all.1
      · exact all.1
  | _ => trivial

/-- A sound change anywhere keeps a node sound. -/
theorem Sound.alter {home : Location} {change : FileNode → FileNode}
    (keeps : ∀ {node : FileNode}, node.Sound → (change node).Sound) {node : FileNode}
    (sound : node.Sound) : (node.alter home change).Sound := by
  -- Each directory on the way has one member changed, soundly by the case below it.
  induction home generalizing change with
  | nil => exact keeps sound
  | cons name home ih => exact ih fun found => found.alterMember keeps

/-- Putting a sound member keeps all members sound. -/
theorem AllSound.put {name : EntryName} {fresh : FileNode} (isSound : fresh.Sound)
    {members : List (EntryName × FileNode)} (all : AllSound members) :
    AllSound (OrderedMap.put name fresh members) := by
  -- The new member stands in the place of the old one or behind all others.
  induction members with
  | nil => exact ⟨isSound, trivial⟩
  | cons member members ih =>
    obtain ⟨label, node⟩ := member
    simp only [OrderedMap.put]
    split
    · exact ⟨isSound, all.2⟩
    · exact ⟨all.1, ih all.2⟩

/-- Dropping members leaves the others sound. -/
theorem AllSound.filter (keeps : EntryName × FileNode → Bool)
    {members : List (EntryName × FileNode)} (all : AllSound members) :
    AllSound (members.filter keeps) := by
  -- Members that stay were sound before.
  induction members with
  | nil => trivial
  | cons member members ih =>
    simp only [List.filter_cons]
    split
    · exact ⟨all.1, ih all.2⟩
    · exact ih all.2

/-- All members of a sound directory are sound. -/
theorem AllSound.lookup {members : List (EntryName × FileNode)} (all : AllSound members)
    {name : EntryName} {node : FileNode} (found : OrderedMap.lookup name members = some node) :
    node.Sound := by
  -- The member found is one of the list, all of which are sound.
  induction members with
  | nil => simp [OrderedMap.lookup] at found
  | cons member members ih =>
    obtain ⟨label, first⟩ := member
    rw [OrderedMap.lookup] at found
    split at found
    · exact Option.some.inj found ▸ all.1
    · exact ih all.2 found

/-- Whatever stands below a sound node is sound. -/
theorem Sound.at? {node found : FileNode} (sound : node.Sound) {place : Location}
    (stands : FileNode.at? place node = some found) : found.Sound := by
  -- From the top down, each entry on the way is a sound directory.
  induction place generalizing found with
  | nil => exact Option.some.inj stands ▸ sound
  | cons name home ih =>
    obtain ⟨outer, above, member⟩ := Option.bind_eq_some_iff.mp stands
    have kept := ih above
    cases outer with
    | directory members => exact kept.2.lookup member
    | _ => simp [member?, FileNode.members, OrderedMap.lookup] at member

/-- Two changes of one member are one. -/
theorem alterMember_alterMember (name : EntryName) (first second : FileNode → FileNode)
    (node : FileNode) :
    (node.alterMember name first).alterMember name second =
      node.alterMember name (second ∘ first) := by
  -- Both changes act on the member of that name and pass over the others.
  cases node with
  | directory members =>
    simp only [alterMember, mapMembers, List.map_map, directory.injEq]
    congr 1
    funext entry
    by_cases same : entry.1 = name <;> simp [same]
  | _ => rfl

/-- Two changes at one place are one. -/
theorem alter_alter (home : Location) (first second : FileNode → FileNode) (node : FileNode) :
    (node.alter home first).alter home second = node.alter home (second ∘ first) := by
  -- The two ways are the same, so the changes meet in one directory after another.
  induction home generalizing first second with
  | nil => rfl
  | cons name home ih =>
    rw [alter, alter, ih, alter]
    congr 1
    funext found
    exact alterMember_alterMember name first second found

/-- A change that keeps the member under a name keeps the directory, as no name stands twice. -/
theorem alterMember_eq_self {name : EntryName} {change : FileNode → FileNode} {node : FileNode}
    (sound : node.Sound) (keeps : ∀ member ∈ node.member? name, change member = member) :
    node.alterMember name change = node := by
  cases node with
  | directory members =>
    simp only [alterMember, mapMembers, directory.injEq]
    simp only [member?, FileNode.members] at keeps
    have distinct := sound.1
    clear sound
    induction members with
    | nil => rfl
    | cons member members ih =>
      obtain ⟨label, first⟩ := member
      rw [OrderedMap.lookup] at keeps
      rw [List.map_cons, List.nodup_cons] at distinct
      by_cases same : label = name
      · subst same
        rw [if_pos rfl] at keeps
        -- Behind the member of that name there is no other one.
        rw [List.map_cons, if_pos rfl, keeps first rfl, ih _ distinct.2]
        simp [OrderedMap.lookup_eq_none distinct.1]
      · rw [if_neg same] at keeps
        rw [List.map_cons, if_neg same, ih keeps distinct.2]
  | _ => rfl

/-- A change that keeps what stands at its place keeps the whole. -/
theorem alter_eq_self {home : Location} {change : FileNode → FileNode} {node : FileNode}
    (sound : node.Sound) (keeps : ∀ found ∈ at? home node, change found = found) :
    node.alter home change = node := by
  induction home generalizing change with
  | nil => exact keeps node rfl
  | cons name home ih =>
    -- One step up, the change is that of a member of the directory that stands there.
    refine ih fun outer above => ?_
    refine alterMember_eq_self (sound.at? above) fun member inside => keeps member ?_
    exact Option.mem_bind_iff.mpr ⟨outer, above, inside⟩

/-- A new entry stands alone. -/
theorem sound_ofEntry (entry : Entry) : (ofEntry entry).Sound := by
  -- New directories have no members, and other entries never have any.
  cases entry <;> simp [ofEntry, Sound, AllSound]

/-- Only below a directory something stands. -/
theorem at?_eq_none {below : Location} (deeper : below ≠ []) {node : FileNode}
    (bare : node.members = []) : at? below node = none := by
  -- A way down that is not empty asks the topmost node for a member.
  rcases List.eq_nil_or_concat below with rfl | ⟨rest, last, rfl⟩
  · contradiction
  · simp [at?_append, at?, member?, bare, OrderedMap.lookup]

/-- A new entry has no members. -/
theorem members_ofEntry (entry : Entry) : (ofEntry entry).members = [] := by
  -- Whatever kind of entry it is, it comes alone.
  cases entry <;> rfl

/-- A new entry is what stands at the top of its node. -/
theorem entry_ofEntry (fresh : Entry) : (ofEntry fresh).entry = fresh := by
  -- Each kind of entry makes the node of that kind.
  cases fresh <;> rfl

mutual

/-- The places below a node that stands at a place. -/
def placesBelow (home : Location) : FileNode → List Location
  | .directory members => placesAmong home members
  | _ => []

/-- The places of members of a directory and those below them. -/
def placesAmong (home : Location) : List (EntryName × FileNode) → List Location
  | [] => []
  | (name, node) :: members =>
    (name :: home) :: (node.placesBelow (name :: home) ++ placesAmong home members)

end

end FileNode

end Stocktake
