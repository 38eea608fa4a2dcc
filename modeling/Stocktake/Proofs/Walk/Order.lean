import Stocktake.Proofs.Text.Utf8
import Stocktake.Proofs.Walk.Spelling

/-! The order of chains is the order of their paths, component by component and byte by byte. -/

namespace Stocktake

open Workspace

/-- Components other than names come before names, in the order of their ranks. -/
def Component.rank : Component → Nat
  | .root => 0
  | .current => 1
  | .parent => 2
  | .name _ => 3

/-- Names are ordered by their bytes. -/
def compareComponents : Component → Component → Ordering
  | .name one, .name other => compareBytes (utf8Encode one.toList) (utf8Encode other.toList)
  | one, other => compare one.rank other.rank

/-- Components compare the other way when they are exchanged. -/
instance : Std.OrientedCmp compareComponents where
  eq_swap {one other} := by
    cases one with
    | name text =>
      cases other with
      | name text' => exact (Std.OrientedCmp.eq_swap : compareBytes _ _ = (compareBytes _ _).swap)
      | _ => rfl
    | _ => cases other <;> rfl

/-- A path stands before another when the first component in which they differ does. -/
def Path.Precedes (one other : String) : Prop :=
  List.compareLex compareComponents (Path.components one) (Path.components other) = .lt

/-- No path stands before one that stands before it. -/
theorem Path.Precedes.asymm {one other : String} (before : Path.Precedes one other) :
    ¬ Path.Precedes other one := by
  -- The order of components is oriented.
  intro after
  have swapped : List.compareLex compareComponents (Path.components other) (Path.components one) =
      .gt := Std.OrientedCmp.gt_of_lt before
  rw [Path.Precedes, swapped] at after
  contradiction

section Lexicographic

variable {α β : Type}

/-- Equal items in front do not decide between lists. -/
private theorem compareLex_append (cmp : α → α → Ordering) [Std.ReflCmp cmp]
    (front one other : List α) :
    List.compareLex cmp (front ++ one) (front ++ other) = List.compareLex cmp one other := by
  -- Each of the equal items leaves the comparison to those behind it.
  induction front with
  | nil => rfl
  | cons item front ih =>
    have same : cmp item item = .eq := Std.ReflCmp.compare_self
    rw [List.cons_append, List.cons_append, List.compareLex_cons_cons, same, ih]
    rfl

/-- Lists of images are compared by their items as the lists of these items are. -/
private theorem compareLex_map (cmp : β → β → Ordering) (image : α → β) (one other : List α) :
    List.compareLex cmp (one.map image) (other.map image) =
      List.compareLex (fun item item' => cmp (image item) (image item')) one other := by
  -- Both lists are walked together.
  induction one generalizing other with
  | nil => cases other <;> rfl
  | cons item one ih =>
    cases other with
    | nil => rfl
    | cons item' other =>
      rw [List.map_cons, List.map_cons, List.compareLex_cons_cons, List.compareLex_cons_cons, ih]

end Lexicographic

/-- Names of entries are compared as the components that they are. -/
private theorem compareComponents_name (one other : EntryName) :
    compareComponents (.name one.text) (.name other.text) = compareNames one other :=
  -- Bytes of texts have the order of the texts.
  compareBytes_utf8Encode _ _

/-- Paths below one root have the order of their chains. -/
theorem precedes_walkedPath {root : String} (present : root ≠ "") (one other : Chain) :
    Path.Precedes (walkedPath root one) (walkedPath root other) ↔
      List.compareLex compareNames one.reverse other.reverse = .lt := by
  -- Both paths have the components of the root in front, and then the names of their chains.
  rw [Path.Precedes, components_walkedPath present, components_walkedPath present,
    compareLex_append, namesOf, namesOf, compareLex_map]
  simp only [compareComponents_name]

/-- Characters with the same code are the same. -/
instance lawfulEqCmp_toNat : Std.LawfulEqCmp (compareOn Char.toNat) where
  compare_self := Nat.compare_eq_eq.mpr rfl
  eq_of_compare same := Char.toNat_inj.mp (Nat.compare_eq_eq.mp same)

/-- Names of entries are ordered by the codes of their characters. -/
instance : Std.TransCmp compareNames where
  eq_swap {one other} :=
    let cmp := List.compareLex (compareOn Char.toNat)
    (Std.OrientedCmp.eq_swap : cmp one.text.toList other.text.toList = _)
  isLE_trans {one _ three} first second :=
    let cmp := List.compareLex (compareOn Char.toNat)
    (Std.TransCmp.isLE_trans first second : (cmp one.text.toList three.text.toList).isLE)

/-- Names that do not differ in the order are the same. -/
instance : Std.LawfulEqCmp compareNames where
  eq_of_compare {one other} same := by
    let cmp := List.compareLex (compareOn Char.toNat)
    have texts : one.text.toList = other.text.toList :=
      (Std.LawfulEqCmp.eq_of_compare : cmp one.text.toList other.text.toList = .eq → _) same
    cases one
    cases other
    simpa [String.toList_inj] using texts

/-- Chains in order that differ have their paths in strict order. -/
theorem precedes_of_chainsInOrder {root : String} (present : root ≠ "") {one other : Chain}
    (ordered : chainsInOrder one other) (apart : one ≠ other) :
    Path.Precedes (walkedPath root one) (walkedPath root other) := by
  -- Chains that compare equal are equal, since their names are.
  rw [precedes_walkedPath present]
  cases result : List.compareLex compareNames one.reverse other.reverse with
  | lt => rfl
  | eq => exact absurd (List.reverse_inj.mp (Std.LawfulEqCmp.eq_of_compare result)) apart
  | gt => simp [chainsInOrder, result] at ordered

/-- The order of chains goes from each to those behind the next. -/
theorem chainsInOrder_trans (one two three : Chain) (first : chainsInOrder one two)
    (second : chainsInOrder two three) : chainsInOrder one three :=
  -- The order of lists of names is transitive, since that of names is.
  Std.TransCmp.isLE_trans first second

/-- Of two chains one is in order before the other. -/
theorem chainsInOrder_total (one other : Chain) :
    (chainsInOrder one other || chainsInOrder other one) = true := by
  -- Two lists are in order one way, the other way, or both.
  have swapped : List.compareLex compareNames other.reverse one.reverse =
      (List.compareLex compareNames one.reverse other.reverse).swap := Std.OrientedCmp.eq_swap
  rw [chainsInOrder, chainsInOrder, swapped]
  cases List.compareLex compareNames one.reverse other.reverse <;> rfl

/-- Lists of the same chains are put into the same order. -/
theorem mergeSort_chainsInOrder_congr {one other : List Chain} (same : one.Perm other) :
    one.mergeSort chainsInOrder = other.mergeSort chainsInOrder := by
  -- Chains that are in order both ways compare equal, and so are equal.
  have sorted := List.pairwise_mergeSort chainsInOrder_trans chainsInOrder_total
  refine List.Perm.eq_of_pairwise (fun chain chain' _ _ before after => ?_) (sorted one)
    (sorted other) ?_
  · have swapped : List.compareLex compareNames chain'.reverse chain.reverse =
        (List.compareLex compareNames chain.reverse chain'.reverse).swap := Std.OrientedCmp.eq_swap
    rw [chainsInOrder] at before
    rw [chainsInOrder, swapped] at after
    cases result : List.compareLex compareNames chain.reverse chain'.reverse with
    | eq => exact List.reverse_inj.mp (Std.LawfulEqCmp.eq_of_compare result)
    | lt => simp [result] at after
    | gt => simp [result] at before
  · exact (List.mergeSort_perm one _).trans (same.trans (List.mergeSort_perm other _).symm)

end Stocktake
