import Stocktake.Registry

/-! A registry holds what was recorded, in order, and the last dependencies of each name. -/

namespace Stocktake

/-- One of the ways in which a registry is filled. -/
inductive Recording
  | file (analysis : Analysis)
  | declaration (category : Category) (construct : Construct)
  | failure (failure : Failure)
  deriving DecidableEq, Repr

/-- The constructs that a recording brings, in the order in which they are recorded. -/
def Recording.constructs : Recording → List (Category × Construct)
  | .file analysis => analysis.constructs
  | .declaration category construct => [(category, construct)]
  | .failure _ => []

/-- The names of recorded constructs, a name as often as it was recorded. -/
def recordedNames (recorded : List (Category × Construct)) : List String :=
  recorded.map fun entry => entry.2.name

/-- The dependencies that the last construct of a name brought. -/
def latestDependencies? (recorded : List (Category × Construct)) (name : String) :
    Option (List String) :=
  (recorded.filter (·.2.name == name)).getLast?.map fun entry => entry.2.dependencies

namespace Registry

/-- Makes one recording. -/
def perform (registry : Registry) : Recording → Registry
  | .file analysis => registry.recordFile analysis
  | .declaration category construct => registry.record category construct
  | .failure failure => registry.recordFailure failure

/-- The registry that recordings fill in turn. -/
def ofRecordings (recordings : List Recording) : Registry :=
  recordings.foldl perform empty

/-- What a registry looks like when a sequence of constructs has been recorded. -/
structure Holds (registry : Registry) (recorded : List (Category × Construct)) : Prop where
  /-- Each collection has the constructs of its category in the order of the recordings. -/
  collection : ∀ category, registry.collection category =
    (recorded.filter (·.1 == category)).map Prod.snd
  mem_keys : ∀ name, name ∈ registry.dependencies.keys ↔ name ∈ recordedNames recorded
  /-- The names stand in the order in which they were first recorded. -/
  ordered : registry.dependencies.keys.Pairwise fun one other =>
    (recordedNames recorded).idxOf one < (recordedNames recorded).idxOf other
  latest : ∀ name, registry.dependencies.get? name = latestDependencies? recorded name

/-- Nothing has been recorded in the empty registry. -/
theorem holds_empty : empty.Holds [] where
  -- There is neither a construct nor a name.
  collection category := by cases category <;> rfl
  mem_keys _ := Iff.rfl
  ordered := List.Pairwise.nil
  latest _ := rfl

/-- A recorded construct comes last in its own collection and shows in no other. -/
theorem collection_record (registry : Registry) (category other : Category)
    (construct : Construct) :
    (registry.record category construct).collection other =
      registry.collection other ++ if category = other then [construct] else [] := by
  -- The table changes in the entry of one category only.
  have modified := ByCategory.get_modify registry.constructs category other (· ++ [construct])
  change (registry.constructs.modify category (· ++ [construct])).get other = _
  rw [modified]
  by_cases same : category = other
  · subst same
    simp [collection]
  · simp [collection, same, Ne.symm same]

/-- A further construct adds its name behind the others. -/
private theorem recordedNames_append (recorded : List (Category × Construct))
    (entry : Category × Construct) :
    recordedNames (recorded ++ [entry]) = recordedNames recorded ++ [entry.2.name] := by
  -- Names are listed in the order of the constructs.
  rw [recordedNames, List.map_append]
  rfl

/-- A name that was recorded keeps its position. -/
private theorem idxOf_recordedNames_append {recorded : List (Category × Construct)} {name : String}
    (known : name ∈ recordedNames recorded) (entry : Category × Construct) :
    (recordedNames (recorded ++ [entry])).idxOf name = (recordedNames recorded).idxOf name := by
  -- Its first occurrence is among those before the further construct.
  rw [recordedNames_append, List.idxOf_append, if_pos known]

/-- A name that is recorded for the first time comes behind all names before it. -/
private theorem idxOf_recordedNames_fresh {recorded : List (Category × Construct)} {name : String}
    (known : name ∈ recordedNames recorded) {entry : Category × Construct}
    (fresh : entry.2.name ∉ recordedNames recorded) :
    (recordedNames (recorded ++ [entry])).idxOf name <
      (recordedNames (recorded ++ [entry])).idxOf entry.2.name := by
  -- Its position is the number of names before it.
  have bound := List.idxOf_lt_length_iff.mpr known
  rw [idxOf_recordedNames_append known, recordedNames_append, List.idxOf_append, if_neg fresh]
  omega

/-- The last construct of a name decides on its dependencies. -/
private theorem latestDependencies?_append (recorded : List (Category × Construct))
    (entry : Category × Construct) (name : String) :
    latestDependencies? (recorded ++ [entry]) name =
      if name = entry.2.name then some entry.2.dependencies
      else latestDependencies? recorded name := by
  -- The latest construct is the last one of those with the name.
  rw [latestDependencies?, latestDependencies?, List.filter_append]
  by_cases same : name = entry.2.name
  · subst same
    simp
  · simp [same, Ne.symm same]

/-- Recording a construct adds it to what a registry holds. -/
theorem Holds.record {registry : Registry} {recorded : List (Category × Construct)}
    (holds : registry.Holds recorded) (category : Category) (construct : Construct) :
    (registry.record category construct).Holds (recorded ++ [(category, construct)]) := by
  -- The map keeps the place of a known name and puts a new one last.
  have keys : (registry.record category construct).dependencies.keys =
      if construct.name ∈ registry.dependencies.keys then registry.dependencies.keys
      else registry.dependencies.keys ++ [construct.name] :=
    OrderedMap.keys_insert _ _ _
  have kept : registry.dependencies.keys.Pairwise fun one other =>
      (recordedNames (recorded ++ [(category, construct)])).idxOf one <
        (recordedNames (recorded ++ [(category, construct)])).idxOf other := by
    refine holds.ordered.imp_of_mem fun {one other} first second before => ?_
    rw [idxOf_recordedNames_append ((holds.mem_keys one).mp first),
      idxOf_recordedNames_append ((holds.mem_keys other).mp second)]
    exact before
  constructor
  case collection =>
    intro other
    rw [collection_record, holds.collection other, List.filter_append, List.map_append]
    by_cases same : category = other <;> simp [same]
  case mem_keys =>
    intro name
    rw [keys, recordedNames_append, List.mem_append, List.mem_singleton, ← holds.mem_keys name]
    split
    · rename_i known
      exact ⟨.inl, fun either => either.elim id fun same => same ▸ known⟩
    · rw [List.mem_append, List.mem_singleton]
  case ordered =>
    rw [keys]
    split
    · exact kept
    · rename_i absent
      have fresh : construct.name ∉ recordedNames recorded := fun member =>
        absent ((holds.mem_keys _).mpr member)
      refine List.pairwise_append.mpr ⟨kept, List.pairwise_singleton _ _, ?_⟩
      intro one member other last
      rw [List.mem_singleton.mp last]
      exact idxOf_recordedNames_fresh ((holds.mem_keys one).mp member) fresh
  case latest =>
    intro name
    rw [latestDependencies?_append, ← holds.latest name]
    exact OrderedMap.get?_insert _ _ _ _

/-- Recording constructs in turn adds all of them to what a registry holds. -/
theorem Holds.foldl_record {registry : Registry} {recorded : List (Category × Construct)}
    (holds : registry.Holds recorded) (constructs : List (Category × Construct)) :
    (constructs.foldl (fun registry (category, construct) => registry.record category construct)
      registry).Holds (recorded ++ constructs) := by
  -- Each construct goes behind those that have been recorded before.
  induction constructs generalizing registry recorded with
  | nil => simpa using holds
  | cons entry constructs ih =>
    have step := ih (holds.record entry.1 entry.2)
    rwa [List.append_assoc, List.singleton_append] at step

/-- One recording adds what it brings to what a registry holds. -/
theorem Holds.perform {registry : Registry} {recorded : List (Category × Construct)}
    (holds : registry.Holds recorded) (recording : Recording) :
    (registry.perform recording).Holds (recorded ++ recording.constructs) := by
  cases recording with
  | file analysis =>
    -- Counting the file itself changes neither the collections nor the dependencies.
    have counted : Holds { registry with
        filesAnalyzed := registry.filesAnalyzed + 1
        templates := registry.templates.count analysis.markers } recorded :=
      ⟨holds.collection, holds.mem_keys, holds.ordered, holds.latest⟩
    rw [Registry.perform, recordFile_eq_foldl]
    exact counted.foldl_record analysis.constructs
  | declaration category construct => exact holds.record category construct
  | failure failure =>
    rw [Recording.constructs, List.append_nil]
    exact ⟨holds.collection, holds.mem_keys, holds.ordered, holds.latest⟩

/-- After any recordings a registry holds all that they have brought. -/
theorem holds_ofRecordings (recordings : List Recording) :
    (ofRecordings recordings).Holds (recordings.flatMap Recording.constructs) := by
  -- The recordings still to come add to what those before them have brought.
  have general : ∀ (recordings : List Recording) (registry : Registry)
      (recorded : List (Category × Construct)), registry.Holds recorded →
        (recordings.foldl perform registry).Holds
          (recorded ++ recordings.flatMap Recording.constructs) := by
    intro recordings
    induction recordings with
    | nil =>
      intro registry recorded holds
      simpa using holds
    | cons recording recordings ih =>
      intro registry recorded holds
      have rest := ih _ _ (holds.perform recording)
      rwa [List.append_assoc, ← List.flatMap_cons] at rest
  exact general recordings empty [] holds_empty

/-- The collections of all categories together have every recorded construct once. -/
theorem Holds.total {registry : Registry} {recorded : List (Category × Construct)}
    (holds : registry.Holds recorded) : registry.total = recorded.length := by
  simp only [Registry.total, holds.collection, List.length_map, Category.all, List.map_cons,
    List.map_nil, List.foldl_cons, List.foldl_nil]
  clear holds
  induction recorded with
  | nil => rfl
  | cons entry recorded ih =>
    obtain ⟨category, construct⟩ := entry
    rw [List.length_cons, ← ih]
    -- The first construct counts in the collection of its own category only.
    cases category <;> simp <;> omega

/--
After any recordings a registry has every construct in its category's collection, in order.
Its map has each recorded name once, in the order of the first recordings, with the dependencies
that the last recording of the name has brought.
-/
theorem ofRecordings_collections_and_dependencies (recordings : List Recording) :
    let recorded := recordings.flatMap Recording.constructs
    let registry := ofRecordings recordings
    (∀ category, registry.collection category =
      (recorded.filter (·.1 == category)).map Prod.snd) ∧
    registry.total = recorded.length ∧
    registry.dependencies.keys.Nodup ∧
    (∀ name, name ∈ registry.dependencies.keys ↔ name ∈ recordedNames recorded) ∧
    (registry.dependencies.keys.Pairwise fun one other =>
      (recordedNames recorded).idxOf one < (recordedNames recorded).idxOf other) ∧
    (∀ name, registry.dependencies.get? name = latestDependencies? recorded name) ∧
    ∀ name, registry.dependencyCount name =
      match latestDependencies? recorded name with
      | some dependencies => dependencies.length
      | none => 0 := by
  -- All of it is what the registry holds after the recordings.
  intro recorded registry
  have holds := holds_ofRecordings recordings
  refine ⟨holds.collection, holds.total, registry.dependencies.distinct, holds.mem_keys,
    holds.ordered, holds.latest, fun name => ?_⟩
  rw [dependencyCount, holds.latest name]
  cases latestDependencies? recorded name <;> rfl

end Registry

end Stocktake
