import Stocktake.OrderedMap
import Stocktake.Source.Analysis

/-! The registry accumulates what a scan finds: constructs, dependencies, templates and failures. -/

namespace Stocktake

/-- Declared names with the dependencies that the last construct of each name brought. -/
abbrev DependencyMap :=
  OrderedMap String (List String)

/-- Counts over the recorded files that have a template. -/
structure TemplateTally where
  total : Nat
  withTranslations : Nat
  withForms : Nat
  withDirectives : Nat
  deriving DecidableEq, Repr

namespace TemplateTally

/-- The counts before any file. -/
def zero : TemplateTally :=
  ⟨0, 0, 0, 0⟩

/-- Counts one more file; a file without a template changes nothing. -/
def count (tally : TemplateTally) (markers : Markers) : TemplateTally :=
  if markers.hasAnyTemplate then
    { total := tally.total + 1
      withTranslations := tally.withTranslations + markers.hasTranslations.toNat
      withForms := tally.withForms + markers.hasForms.toNat
      withDirectives := tally.withDirectives + markers.hasDirectives.toNat }
  else tally

end TemplateTally

/-- A file that could not be read, and why. -/
structure Failure where
  path : String
  message : String
  deriving DecidableEq, Repr

/-- Everything that a scan has found so far. -/
structure Registry where
  /-- The constructs of each category in the order in which they were recorded. -/
  constructs : ByCategory (List Construct)
  dependencies : DependencyMap
  templates : TemplateTally
  filesAnalyzed : Nat
  failures : List Failure
  deriving DecidableEq

namespace Registry

/-- The registry before any file. -/
def empty : Registry where
  constructs := .replicate []
  dependencies := .empty
  templates := .zero
  filesAnalyzed := 0
  failures := []

/-- Records a construct: it joins its collection, and its dependencies become those of its name. -/
def record (registry : Registry) (category : Category) (construct : Construct) : Registry :=
  { registry with
    constructs := registry.constructs.modify category (· ++ [construct])
    dependencies := registry.dependencies.insert construct.name construct.dependencies }

/-- Records an analysed file: its constructs join their collections, in the order of the file. -/
def recordFile (registry : Registry) (analysis : Analysis) : Registry where
  constructs := .ofFunction fun category =>
    registry.constructs.get category ++ analysis.constructsOf category
  dependencies := analysis.constructs.foldl
    (fun map (_, construct) => map.insert construct.name construct.dependencies)
    registry.dependencies
  templates := registry.templates.count analysis.markers
  filesAnalyzed := registry.filesAnalyzed + 1
  failures := registry.failures

/-- Records a file that could not be read. -/
def recordFailure (registry : Registry) (failure : Failure) : Registry :=
  { registry with failures := registry.failures ++ [failure] }

/-- The constructs of a category. -/
def collection (registry : Registry) (category : Category) : List Construct :=
  registry.constructs.get category

/-- The number of dependencies of a name, zero for a name that was never recorded. -/
def dependencyCount (registry : Registry) (name : String) : Nat :=
  ((registry.dependencies.get? name).map List.length).getD 0

/-- The number of recorded constructs over all categories. -/
def total (registry : Registry) : Nat :=
  (Category.all.map fun category => (registry.collection category).length).foldl (· + ·) 0

/-- Recording a file is recording its constructs in turn, once the file itself is counted. -/
theorem recordFile_eq_foldl (registry : Registry) (analysis : Analysis) :
    registry.recordFile analysis =
      analysis.constructs.foldl
        (fun registry (category, construct) => registry.record category construct)
        { registry with
          filesAnalyzed := registry.filesAnalyzed + 1
          templates := registry.templates.count analysis.markers } := by
  -- The constructs of a list in turn change the collections and the dependencies alone.
  suffices recorded : ∀ (constructs : List (Category × Construct)) (registry : Registry),
      constructs.foldl (fun registry (category, construct) => registry.record category construct)
          registry =
        { registry with
          constructs := .ofFunction fun category =>
            registry.constructs.get category ++
              (constructs.filter (·.1 == category)).map Prod.snd
          dependencies := constructs.foldl
            (fun map (_, construct) => map.insert construct.name construct.dependencies)
            registry.dependencies } by
    rw [recorded]
    rfl
  intro constructs
  induction constructs with
  | nil =>
    intro registry
    simp only [List.foldl_nil, List.filter_nil, List.map_nil, List.append_nil]
    rfl
  | cons first constructs ih =>
    intro registry
    obtain ⟨category, construct⟩ := first
    simp only [List.foldl_cons]
    rw [ih]
    simp only [record, ByCategory.get_modify]
    congr 2
    funext other
    by_cases same : other = category
    · subst same
      simp
    · simp [same, Ne.symm same]
end Registry

end Stocktake
