/-! Maps that list their keys in the order in which they first came. -/

namespace Stocktake

/-- A map is a list of entries in which no key stands twice. -/
structure OrderedMap (κ ν : Type) where
  entries : List (κ × ν)
  distinct : (entries.map Prod.fst).Nodup
  deriving DecidableEq

namespace OrderedMap

variable {κ ν : Type}

/-- The map without entries. -/
def empty : OrderedMap κ ν :=
  ⟨[], List.nodup_nil⟩

/-- The keys in the order in which they came. -/
def keys (map : OrderedMap κ ν) : List κ :=
  map.entries.map Prod.fst

/-- A map is told by its entries. -/
theorem eq_of_entries {one other : OrderedMap κ ν} (same : one.entries = other.entries) :
    one = other := by
  -- Beside its entries a map holds only the proof that their keys are distinct.
  cases one
  cases other
  cases same
  rfl

variable [DecidableEq κ]

/-- The value of the first entry with a key. -/
def lookup (key : κ) : List (κ × ν) → Option ν
  | [] => none
  | (name, value) :: rest => if name = key then some value else lookup key rest

/-- Overwrites the entry of a key where it stands, or adds one at the end. -/
def put (key : κ) (value : ν) : List (κ × ν) → List (κ × ν)
  | [] => [(key, value)]
  | (name, old) :: rest =>
    if name = key then (name, value) :: rest else (name, old) :: put key value rest

/-- Nothing is found under a key that no entry has. -/
theorem lookup_eq_none {key : κ} {entries : List (κ × ν)} (absent : key ∉ entries.map Prod.fst) :
    lookup key entries = none := by
  -- Every entry is passed over, the first one and those behind it.
  induction entries with
  | nil => rfl
  | cons entry rest ih =>
    rw [List.map_cons, List.mem_cons, not_or] at absent
    rw [lookup, if_neg (Ne.symm absent.1), ih absent.2]

/-- Overwriting keeps the keys as they are, and a new key comes last. -/
theorem map_fst_put (key : κ) (value : ν) (entries : List (κ × ν)) :
    (put key value entries).map Prod.fst =
      if key ∈ entries.map Prod.fst then entries.map Prod.fst
      else entries.map Prod.fst ++ [key] := by
  -- The first entry with the key is overwritten where it stands, and only the end of the list adds
  -- one.
  induction entries with
  | nil => simp [put]
  | cons entry rest ih =>
    obtain ⟨name, old⟩ := entry
    by_cases same : name = key
    · simp [put, same]
    · by_cases later : key ∈ rest.map Prod.fst
      · simp_all [put]
      · simp_all [put, Ne.symm same]

/-- The value of a key. -/
def get? (map : OrderedMap κ ν) (key : κ) : Option ν :=
  lookup key map.entries

/-- Sets the value of a key: a key that is there keeps its place, a new one comes last. -/
def insert (map : OrderedMap κ ν) (key : κ) (value : ν) : OrderedMap κ ν where
  entries := put key value map.entries
  distinct := by
    rw [map_fst_put]
    split
    · exact map.distinct
    · -- A key that was not there keeps the list free of repetitions.
      rename_i absent
      refine List.nodup_append.mpr ⟨map.distinct, by simp, fun one member other last => ?_⟩
      rw [List.mem_singleton.mp last]
      exact fun same => absent (same ▸ member)

/-- The map that a list of entries fills in turn. -/
def ofList (entries : List (κ × ν)) : OrderedMap κ ν :=
  entries.foldl (fun map entry => map.insert entry.1 entry.2) empty

/-- Overwriting an entry shows at its key only. -/
theorem lookup_put (key other : κ) (value : ν) (entries : List (κ × ν)) :
    lookup other (put key value entries) =
      if other = key then some value else lookup other entries := by
  -- The entry that is overwritten is the first with its key, which is the one a lookup finds.
  induction entries with
  | nil => simp [put, lookup, eq_comm]
  | cons entry rest ih =>
    obtain ⟨name, old⟩ := entry
    by_cases same : name = key <;> by_cases asked : other = key <;>
      simp_all [put, lookup, eq_comm]

/-- Inserting shows at its key only. -/
theorem get?_insert (map : OrderedMap κ ν) (key other : κ) (value : ν) :
    (map.insert key value).get? other = if other = key then some value else map.get? other :=
  -- Inserting puts into the list of entries.
  lookup_put key other value map.entries

/-- Inserting keeps the order of the keys and puts a new one last. -/
theorem keys_insert (map : OrderedMap κ ν) (key : κ) (value : ν) :
    (map.insert key value).keys = if key ∈ map.keys then map.keys else map.keys ++ [key] :=
  -- Inserting puts into the list of entries, whose keys are known.
  map_fst_put key value map.entries

/-- A key that is not there is added behind the entries that are. -/
theorem put_of_not_mem {key : κ} {entries : List (κ × ν)} (absent : key ∉ entries.map Prod.fst)
    (value : ν) : put key value entries = entries ++ [(key, value)] := by
  -- Every entry is passed over, as none has the key.
  induction entries with
  | nil => rfl
  | cons entry rest ih =>
    obtain ⟨name, old⟩ := entry
    simp only [List.map_cons, List.mem_cons, not_or] at absent
    rw [put, if_neg (Ne.symm absent.1), ih absent.2]
    rfl

/-- Entries with new keys fill up a map in their own order. -/
theorem entries_foldl_insert (map : OrderedMap κ ν) (entries : List (κ × ν))
    (distinct : ((map.entries ++ entries).map Prod.fst).Nodup) :
    (entries.foldl (fun map entry => map.insert entry.1 entry.2) map).entries =
      map.entries ++ entries := by
  -- Each entry has a key that neither the map nor the entries before it have.
  induction entries generalizing map with
  | nil => simp
  | cons entry rest ih =>
    have absent : entry.1 ∉ map.entries.map Prod.fst := by
      rw [List.map_append, List.map_cons, List.nodup_append] at distinct
      exact fun member => distinct.2.2 _ member _ (by simp) rfl
    have grown : (map.insert entry.1 entry.2).entries = map.entries ++ [entry] :=
      put_of_not_mem absent entry.2
    rw [List.foldl_cons, ih, grown, List.append_assoc, List.singleton_append]
    rwa [grown, List.append_assoc, List.singleton_append]

/-- The entries of a map fill up the same map again. -/
theorem ofList_entries (map : OrderedMap κ ν) : ofList map.entries = map :=
  -- A map starts from no entries, and its own have distinct keys.
  eq_of_entries (entries_foldl_insert empty map.entries map.distinct)

/-- A key under which nothing is found is not there. -/
theorem not_mem_of_lookup {key : κ} {entries : List (κ × ν)} (free : lookup key entries = none) :
    key ∉ entries.map Prod.fst := by
  -- A lookup passes over an entry only when its key is another.
  induction entries with
  | nil => simp
  | cons entry rest ih =>
    obtain ⟨name, value⟩ := entry
    rw [lookup] at free
    split at free
    · cases free
    · rename_i other
      simpa [Ne.symm other] using ih free

/-- A new entry can be dropped again. -/
theorem filter_put {key : κ} {entries : List (κ × ν)} (free : lookup key entries = none)
    (value : ν) : (put key value entries).filter (·.1 ≠ key) = entries := by
  -- The new entry comes last, and no other has its key.
  have absent := not_mem_of_lookup free
  rw [put_of_not_mem absent, List.filter_append, List.filter_eq_self.mpr]
  · simp
  · rintro ⟨name, old⟩ member
    have other : name ≠ key := by
      rintro rfl
      exact absent (List.mem_map_of_mem member)
    simpa using other

end OrderedMap

end Stocktake
