import Mathlib.Logic.Relation
import Stocktake.Proofs.Path.Components

/-! Two paths have the same components when they differ in segments that are passed over. -/

namespace Stocktake

namespace Path

/-- The first path is the second one with one more segment that is passed over: there is nothing in
it, or a dot. -/
inductive Respells : String → String → Prop
  | between (front back : String) {segment : List Char} (slack : isSlack segment) :
      Respells (front ++ "/" ++ (String.ofList segment ++ "/" ++ back)) (front ++ "/" ++ back)
  | closing {front : String} (present : front ≠ "") {segment : List Char}
      (slack : isSlack segment) : Respells (front ++ "/" ++ String.ofList segment) front

/-- A segment that spells no component has no slash. -/
private theorem slash_not_mem_of_isSlack {segment : List Char} (slack : isSlack segment) :
    '/' ∉ segment := by
  -- It is empty or a single dot.
  intro slash
  rcases Bool.or_eq_true_iff.mp slack with empty | dot
  · simp [List.isEmpty_iff.mp empty] at slash
  · simp [eq_of_beq dot] at slash

/-- A segment that is passed over changes no component. -/
theorem Respells.components_eq {one other : String} (respells : Respells one other) :
    components one = components other := by
  -- Behind a slash the segment stands by itself, and spells no component.
  cases respells with
  | @between front back segment slack =>
    have free := slash_not_mem_of_isSlack slack
    have passed : innerComponents (String.ofList segment ++ "/" ++ back).toList =
        innerComponents back.toList := by
      rw [String.toList_append, String.toList_append, String.toList_ofList, List.append_assoc]
      show ((segment ++ '/' :: back.toList).splitOn '/').filterMap component? = _
      rw [List.splitOn_append_cons_self_of_not_mem free,
        List.filterMap_cons_none (component?_eq_none_iff.mpr slack), innerComponents]
    rw [components_append_slash, components_append_slash, passed]
  | closing present slack =>
    rw [components_append_slash, if_neg present, String.toList_ofList, innerComponents,
      List.splitOn_eq_singleton (slash_not_mem_of_isSlack slack),
      List.filterMap_cons_none (component?_eq_none_iff.mpr slack), List.filterMap_nil,
      List.append_nil]

/-- Segments with a slash before each of them. -/
def behind : List (List Char) → String
  | [] => ""
  | segment :: segments => "/" ++ String.ofList segment ++ behind segments

end Path

end Stocktake
