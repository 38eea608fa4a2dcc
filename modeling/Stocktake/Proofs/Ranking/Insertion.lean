import Mathlib.Data.List.Permutation
import Stocktake.Proofs.Ranking.Overflow
import Stocktake.Proofs.Registry.Order

/-! A file with names of its own moves none of the components that are ranked without it. -/

namespace Stocktake

section Sorting

variable {α : Type} {le : α → α → Bool}
  (trans : ∀ one two three, le one two → le two three → le one three)
  (total : ∀ one other, le one other || le other one)

include trans total

/-- In a stable sort an item comes behind those that are less, and before all the others. -/
theorem mergeSort_cons_eq (item : α) (items : List α) :
    (item :: items).mergeSort le =
      (items.mergeSort le).filter (!le item ·) ++
        item :: (items.mergeSort le).filter (le item ·) := by
  obtain ⟨front, back, more, fewer, less⟩ := List.mergeSort_cons trans total item items
  -- What stands behind the item is no less, since the list is sorted.
  have sorted := List.pairwise_mergeSort trans total (item :: items)
  rw [more, List.pairwise_append, List.pairwise_cons] at sorted
  have noLess : ∀ later ∈ back, le item later := sorted.2.1.1
  have cut : front.filter (!le item ·) = front ∧ front.filter (le item ·) = [] :=
    ⟨List.filter_eq_self.mpr less, List.filter_eq_nil_iff.mpr fun early member =>
      by simpa using less early member⟩
  have cut' : back.filter (!le item ·) = [] ∧ back.filter (le item ·) = back :=
    ⟨List.filter_eq_nil_iff.mpr fun later member => by simp [noLess later member],
      List.filter_eq_self.mpr noLess⟩
  rw [more, fewer, List.filter_append, List.filter_append, cut.1, cut.2, cut'.1, cut'.2,
    List.append_nil, List.nil_append]

/-- A stable sort of a list has the sorted items of each of its sublists in the same order. -/
theorem sublist_mergeSort_of_sublist {one other : List α} (inside : one.Sublist other) :
    (one.mergeSort le).Sublist (other.mergeSort le) := by
  -- Items are put into the sorted rest one by one, into both lists or into the longer one only.
  induction inside with
  | slnil => exact List.Sublist.refl _
  | @cons one other item inside ih =>
    obtain ⟨front, back, more, fewer, _⟩ := List.mergeSort_cons trans total item other
    rw [fewer] at ih
    rw [more]
    exact ih.middle item
  | cons_cons item inside ih =>
    rw [mergeSort_cons_eq trans total, mergeSort_cons_eq trans total]
    exact (ih.filter _).append ((ih.filter _).cons_cons item)

end Sorting

/-- A component as a candidate, with the effort for it as its score. -/
def candidateOf (weight : Nat) (dependencies : DependencyMap) (component : Construct) : Candidate :=
  ⟨component.name, component.path, effort weight dependencies component⟩

/-- Candidates of smaller scores come first. -/
def scoresInOrder (one other : Candidate) : Bool :=
  one.score ≤ other.score

/-- The order of scores goes from each candidate to those behind the next. -/
theorem scoresInOrder_trans (one two three : Candidate) (first : scoresInOrder one two)
    (second : scoresInOrder two three) : scoresInOrder one three := by
  -- Scores are numbers, whose order is transitive.
  simp only [scoresInOrder, decide_eq_true_eq] at first second ⊢
  omega

/-- Of two candidates one is in order before the other. -/
theorem scoresInOrder_total (one other : Candidate) :
    (scoresInOrder one other || scoresInOrder other one) = true := by
  -- Of two numbers one is not above the other.
  simp only [scoresInOrder, Bool.or_eq_true, decide_eq_true_eq]
  omega

variable {weight : Nat} {dependencies : DependencyMap}

/-- Components whose efforts fit are ranked by them. -/
theorem rank_eq_ok {components : List Construct}
    (fits : ∀ component ∈ components, effort weight dependencies component < wordBound) :
    rank weight dependencies components =
      .ok ((components.map (candidateOf weight dependencies)).mergeSort scoresInOrder) := by
  -- No component overflows, so that all of them become candidates.
  have found : components.mapM (Candidate.ofComponent weight dependencies) =
      .ok (components.map (candidateOf weight dependencies)) := by
    induction components with
    | nil => rfl
    | cons component components ih =>
      have others := ih fun other member => fits other (List.mem_cons_of_mem _ member)
      have small := fits component List.mem_cons_self
      have scored : migrationScore weight dependencies component =
          .ok (effort weight dependencies component) := by
        obtain ⟨_, scored⟩ | ⟨large, _⟩ := migrationScore_cases weight dependencies component
        · exact scored
        · exact absurd small (Nat.not_lt.mpr large)
      rw [List.mapM_cons, Candidate.ofComponent, scored, others]
      rfl
  rw [rank, found]
  rfl

namespace Registry

/-- The registry that analysed files fill in turn. -/
def ofAnalyses (files : List Analysis) : Registry :=
  ofOutcomes (files.map .analyzed)

/-- The components of a registry in the order in which to migrate them. -/
def ranking (weight : Nat) (registry : Registry) : Except Overflow (List Candidate) :=
  rank weight registry.dependencies (registry.collection .component)

/-- The registry of analysed files holds their constructs. -/
theorem holds_ofAnalyses (files : List Analysis) :
    (ofAnalyses files).Holds (files.flatMap Analysis.constructs) := by
  -- Files that were analysed are outcomes without a failure.
  have holds := holds_ofOutcomes (files.map .analyzed)
  rwa [List.flatMap_map] at holds

/-- The components of analysed files are those of each file, in turn. -/
theorem components_ofAnalyses (files : List Analysis) :
    (ofAnalyses files).collection .component =
      files.flatMap (·.constructsOf .component) := by
  -- The constructs of the files are filtered by their category, file after file.
  rw [(holds_ofAnalyses files).collection, List.filter_flatMap, List.map_flatMap]
  rfl

/-- A file that does not declare a name does not show in its dependencies. -/
theorem get?_dependencies_insertion (before after : List Analysis) {extra : Analysis} {name : String}
    (silent : ∀ declared ∈ extra.constructs, declared.2.name ≠ name) :
    (ofAnalyses (before ++ extra :: after)).dependencies.get? name =
      (ofAnalyses (before ++ after)).dependencies.get? name := by
  -- The constructs of that name are the same without those of the file.
  have none : extra.constructs.filter (·.2.name == name) = [] := by
    rw [List.filter_eq_nil_iff]
    intro declared member
    simpa using silent declared member
  rw [(holds_ofAnalyses _).latest, (holds_ofAnalyses _).latest, latestDependencies?,
    latestDependencies?, List.flatMap_append, List.flatMap_append, List.flatMap_cons,
    List.filter_append, List.filter_append, List.filter_append, none, List.nil_append]

/-- A further file with no name of a component of the others leaves these components in their order
and with their scores, wherever it comes among them; without components it changes no ranking. -/
theorem ranking_insertion (weight : Nat) (before after : List Analysis) (extra : Analysis)
    (apart : ∀ declared ∈ extra.constructs, ∀ file ∈ before ++ after,
      ∀ component ∈ file.constructsOf .component, declared.2.name ≠ component.name)
    (fits : ∀ component ∈ (ofAnalyses (before ++ extra :: after)).collection .component,
      effort weight (ofAnalyses (before ++ extra :: after)).dependencies component < wordBound) :
    ∃ ranked extended, (ofAnalyses (before ++ after)).ranking weight = .ok ranked ∧
      (ofAnalyses (before ++ extra :: after)).ranking weight = .ok extended ∧
      ranked.Sublist extended ∧
      (extra.constructsOf .component = [] → ranked = extended) := by
  have listed := components_ofAnalyses (before ++ after)
  have listed' := components_ofAnalyses (before ++ extra :: after)
  rw [List.flatMap_append] at listed
  rw [List.flatMap_append, List.flatMap_cons] at listed'
  -- The components without the file are some of those with it, in the same order.
  have inside : ((ofAnalyses (before ++ after)).collection .component).Sublist
      ((ofAnalyses (before ++ extra :: after)).collection .component) := by
    rw [listed, listed']
    exact (List.sublist_append_right _ _).append_left _
  -- Each of them is the same candidate, since the file leaves the dependencies of its name alone.
  have same : ∀ component ∈ (ofAnalyses (before ++ after)).collection .component,
      candidateOf weight (ofAnalyses (before ++ after)).dependencies component =
        candidateOf weight (ofAnalyses (before ++ extra :: after)).dependencies component := by
    intro component member
    rw [components_ofAnalyses, List.mem_flatMap] at member
    obtain ⟨file, among, member⟩ := member
    have kept := get?_dependencies_insertion before after fun declared written =>
      apart declared written file among component member
    rw [candidateOf, candidateOf, effort, effort, kept]
  -- Hence the scores without the file are among those with it, and fit as well.
  have fits' : ∀ component ∈ (ofAnalyses (before ++ after)).collection .component,
      effort weight (ofAnalyses (before ++ after)).dependencies component < wordBound := by
    intro component member
    have score := congrArg Candidate.score (same component member)
    have bound := fits component (inside.subset member)
    simp only [candidateOf] at score
    rwa [score]
  refine ⟨_, _, rank_eq_ok fits', rank_eq_ok fits, ?_, fun bare => ?_⟩
  · -- A stable sort keeps sublists.
    rw [List.map_congr_left same]
    exact sublist_mergeSort_of_sublist scoresInOrder_trans scoresInOrder_total (inside.map _)
  · -- Without components of its own, the file adds no candidate at all.
    have equal : (ofAnalyses (before ++ after)).collection .component =
        (ofAnalyses (before ++ extra :: after)).collection .component := by
      rw [listed, listed', bare, List.nil_append]
    rw [List.map_congr_left same, equal]

/-- A file that declares constructs under one category. -/
def fileOf (path : String) (loc : Nat) (dependencies : List String) (category : Category)
    (names : List String) : Analysis :=
  let markers : Markers := ⟨false, false, false, false, 0⟩
  ⟨path, loc, dependencies, markers,
    names.map fun name => (category, ⟨name, path, dependencies, loc, markers⟩)⟩

/-- A file is inserted between two others whose components have the scores of its own, and which are
sorted before a page that is listed first, and behind an icon that is listed last. -/
theorem ranking_insertion_between_ties :
    let page := fileOf "page.js" 40 [] .component ["page"]
    let card := fileOf "card.js" 1 ["$http", "$q"] .component ["card"]
    let menu := fileOf "menu.js" 11 ["$log"] .component ["menu", "item"]
    let list := fileOf "list.js" 21 [] .component ["list"]
    let icon := fileOf "icon.js" 3 [] .component ["icon"]
    (∀ component ∈ (ofAnalyses [page, card, menu, list, icon]).collection .component,
      effort 10 (ofAnalyses [page, card, menu, list, icon]).dependencies component < wordBound) ∧
      ∃ ranked extended, (ofAnalyses [page, card, list, icon]).ranking 10 = .ok ranked ∧
        (ofAnalyses [page, card, menu, list, icon]).ranking 10 = .ok extended ∧
        ranked.Sublist extended ∧
        ranked.map Candidate.name = ["icon", "card", "list", "page"] ∧
        extended.map Candidate.name = ["icon", "card", "menu", "item", "list", "page"] := by
  intro page card menu list icon
  have apart : ∀ declared ∈ menu.constructs, ∀ file ∈ [page, card] ++ [list, icon],
      ∀ component ∈ file.constructsOf .component, declared.2.name ≠ component.name := by
    decide
  have fits : ∀ component ∈ (ofAnalyses [page, card, menu, list, icon]).collection .component,
      effort 10 (ofAnalyses [page, card, menu, list, icon]).dependencies component < wordBound := by
    decide +kernel
  obtain ⟨ranked, extended, without, inserted, inside, _⟩ :=
    ranking_insertion 10 [page, card] [list, icon] menu apart fits
  -- Both rankings are computed, and their names are read off.
  have names : ((ofAnalyses [page, card, list, icon]).ranking 10).toOption.map
      (·.map Candidate.name) = some ["icon", "card", "list", "page"] := by cbv
  have names' : ((ofAnalyses [page, card, menu, list, icon]).ranking 10).toOption.map
      (·.map Candidate.name) = some ["icon", "card", "menu", "item", "list", "page"] := by cbv
  rw [List.cons_append, List.singleton_append] at without inserted
  rw [without] at names
  rw [inserted] at names'
  exact ⟨fits, ranked, extended, without, inserted, inside, Option.some.inj names,
    Option.some.inj names'⟩

end Registry

end Stocktake
