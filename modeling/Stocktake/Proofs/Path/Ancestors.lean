import Mathlib.Data.List.DropRight
import Mathlib.Data.List.Nodup
import Mathlib.Data.List.Range
import Stocktake.Proofs.Path.Components

/-! The parents of a path lose its components one by one from the end, and its text with them. -/

namespace Stocktake

namespace Path

/-- How many components a path has besides the root. -/
def depth (path : String) : Nat :=
  (components path).countP (· != .root)

/-- What is left of some segments has all of their components. -/
theorem filterMap_dropSlack (segments : List (List Char)) :
    (dropSlack segments).filterMap component? = segments.filterMap component? := by
  -- A segment is dropped when it spells no component.
  obtain ⟨dropped, shape, slack⟩ := exists_dropSlack_append segments
  have bare : dropped.filterMap component? = [] := List.filterMap_eq_nil_iff.mpr
    fun segment member => component?_eq_none_iff.mpr (slack segment member)
  conv_rhs => rw [← shape, List.filterMap_append, bare, List.append_nil]

/-- The segments before the last one that has a component, up to those that have none. -/
def shortened (segments : List (List Char)) : List (List Char) :=
  dropSlack (dropSlack segments).dropLast

/-- Segments are left out at the end only. -/
theorem shortened_isPrefix (segments : List (List Char)) : shortened segments <+: segments :=
  -- Each of the three steps drops segments from the end.
  (dropSlack_isPrefix _).trans ((List.dropLast_prefix _).trans (dropSlack_isPrefix segments))

/-- Segments of which some have a component have those of the shortened ones, and one more. -/
theorem exists_last_component {segments : List (List Char)} (left : dropSlack segments ≠ []) :
    ∃ last, segments.filterMap component? =
      (shortened segments).filterMap component? ++ [last] := by
  have firm : ¬ isSlack ((dropSlack segments).getLast left) :=
    List.rdropWhile_last_not isSlack segments left
  -- The last segment that is left has a component.
  cases found : component? ((dropSlack segments).getLast left) with
  | none => exact absurd (component?_eq_none_iff.mp found) firm
  | some last =>
    refine ⟨last, ?_⟩
    calc segments.filterMap component?
      _ = (dropSlack segments).filterMap component? := (filterMap_dropSlack segments).symm
      _ = ((dropSlack segments).dropLast ++ [(dropSlack segments).getLast left]).filterMap
          component? := by rw [List.dropLast_append_getLast]
      _ = (shortened segments).filterMap component? ++ [last] := by
        rw [List.filterMap_append, List.filterMap_cons_some found, List.filterMap_nil, shortened,
          filterMap_dropSlack]

/-- The text of some segments begins with that of the first ones. -/
theorem intercalate_isPrefix {fewer segments : List (List Char)} (front : fewer <+: segments) :
    ['/'].intercalate fewer <+: ['/'].intercalate segments := by
  induction fewer generalizing segments with
  | nil => exact List.nil_prefix
  | cons segment fewer ih =>
    obtain ⟨rest, rfl, later⟩ := List.cons_prefix_iff.mp front
    -- Where the first segments end, the other text goes on with a slash, if at all.
    match fewer, rest with
    | [], [] => exact List.prefix_refl _
    | [], next :: rest =>
      rw [List.intercalate_cons_cons, List.intercalate_singleton, List.append_assoc]
      exact List.prefix_append _ _
    | _ :: _, [] => exact absurd (List.prefix_nil.mp later) (List.cons_ne_nil _ _)
    | _ :: _, _ :: _ =>
      rw [List.intercalate_cons_cons, List.intercalate_cons_cons]
      exact (List.prefix_append_right_inj _).mpr (ih later)

/-- Segments behind a slash have the components that each of them has. -/
theorem innerComponents_intercalate {segments : List (List Char)}
    (free : ∀ segment ∈ segments, '/' ∉ segment) :
    innerComponents (['/'].intercalate segments) = segments.filterMap component? := by
  -- No segment has a slash, so the text is split into just these segments.
  cases segments with
  | nil => rfl
  | cons first rest =>
    rw [innerComponents, splitOn_intercalate_pieces (List.cons_ne_nil first rest),
      flatMap_splitOn_eq_self free]

/-- One path ends before the last component of another, which is not the root, and has the same text
up to there. -/
structure EndsBefore (parent path : String) : Prop where
  components_eq : ∃ last, last ≠ .root ∧ components path = components parent ++ [last]
  prefix_text : parent.toList <+: path.toList

/-- The last component of segments is not the root. -/
private theorem ne_root_of_filterMap {segments : List (List Char)}
    (free : ∀ segment ∈ segments, '/' ∉ segment) {others : List Component} {last : Component}
    (ends : segments.filterMap component? = others ++ [last]) : last ≠ .root := by
  -- Without a slash a segment spells an inner component.
  have inner : last.IsInner := by
    apply isInner_of_mem_filterMap free
    rw [ends]
    exact List.mem_append_right others List.mem_cons_self
  rintro rfl
  exact inner.elim

/-- A path that begins with a slash has the root and what is behind it as components. -/
theorem components_slash (text : List Char) :
    components (String.ofList ('/' :: text)) = .root :: innerComponents text := by
  -- The text before the first slash is empty, and spells the root there.
  have shape : String.ofList ('/' :: text) = "" ++ "/" ++ String.ofList text := by
    apply String.toList_inj.mp
    simp
  rw [shape, components_append_slash, String.toList_ofList]
  rfl

/-- A path that begins with a slash has a parent when there is a component behind the slash. -/
theorem parent?_absolute {path : String} {segments : List (List Char)}
    (some_segment : segments ≠ []) (split : path.toList.splitOn '/' = [] :: segments) :
    parent? path = none ∧ components path = [.root] ∨
      ∃ parent, parent? path = some parent ∧ EndsBefore parent path := by
  have free : ∀ segment ∈ segments, '/' ∉ segment := by
    intro segment member
    have among : segment ∈ path.toList.splitOn '/' := by
      rw [split]
      exact List.mem_cons_of_mem [] member
    exact not_mem_of_mem_splitOn among
  obtain ⟨first, rest, rfl⟩ := List.exists_cons_of_ne_nil some_segment
  have own : components path = .root :: (first :: rest).filterMap component? := by
    rw [components, split]
  have text : path.toList = '/' :: ['/'].intercalate (first :: rest) := by
    have joined : ['/'].intercalate (path.toList.splitOn '/') = path.toList :=
      List.intercalate_splitOn '/'
    rw [← joined, split, List.intercalate_cons_cons]
    rfl
  rw [parent?, split]
  dsimp only
  split
  · -- Nothing but the root is left.
    rename_i none_left
    refine .inl ⟨rfl, ?_⟩
    rw [own, ← filterMap_dropSlack, none_left, List.filterMap_nil]
  · rename_i left
    obtain ⟨last, more⟩ := exists_last_component left
    have front := shortened_isPrefix (first :: rest)
    -- The slash in front stays, and the segments behind it lose their last component.
    refine .inr ⟨_, rfl, ⟨last, ne_root_of_filterMap free more, ?_⟩, ?_⟩
    · have kept := fun segment member => free segment (front.subset member)
      rw [own, more, components_slash, ← shortened, innerComponents_intercalate kept,
        List.cons_append]
    · rw [text, String.toList_ofList]
      exact (List.prefix_cons_inj _).mpr (intercalate_isPrefix front)

/-- A path that does not begin with a slash has the components of its first segment and those of the
others. -/
theorem components_intercalate {first : List Char} {rest : List (List Char)} (filled : first ≠ [])
    (free : ∀ segment ∈ first :: rest, '/' ∉ segment) :
    components (String.ofList (['/'].intercalate (first :: rest))) =
      leading first ++ rest.filterMap component? := by
  -- The text is split into these segments, of which the first has a text.
  have split : (String.ofList (['/'].intercalate (first :: rest))).toList.splitOn '/' =
      first :: rest := by
    rw [String.toList_ofList, splitOn_intercalate_pieces (List.cons_ne_nil first rest),
      flatMap_splitOn_eq_self free]
  have present : String.ofList (['/'].intercalate (first :: rest)) ≠ "" := by
    intro empty
    rw [empty] at split
    exact filled (List.cons.inj split).1.symm
  exact components_eq present split

/-- A path that has a text and does not begin with a slash has a parent. -/
theorem parent?_relative {path : String} {first : List Char} {rest : List (List Char)}
    (filled : first ≠ []) (split : path.toList.splitOn '/' = first :: rest) :
    ∃ parent, parent? path = some parent ∧ EndsBefore parent path := by
  have free : ∀ segment ∈ first :: rest, '/' ∉ segment := by
    intro segment member
    rw [← split] at member
    exact not_mem_of_mem_splitOn member
  obtain ⟨ownFree, restFree⟩ := List.forall_mem_cons.mp free
  have text : path = String.ofList (['/'].intercalate (first :: rest)) := by
    apply String.toList_inj.mp
    rw [String.toList_ofList, ← split]
    exact (List.intercalate_splitOn '/').symm
  have own := components_intercalate filled free
  rw [← text] at own
  obtain ⟨component, lead, spelling⟩ := exists_leading filled
  -- The root would be spelled by a slash.
  have notRoot : component ≠ .root := by
    rintro rfl
    rw [← String.toList_ofList (l := first), ← spelling] at ownFree
    exact ownFree (by decide)
  obtain ⟨c, first, rfl⟩ := List.exists_cons_of_ne_nil filled
  rw [parent?, split]
  dsimp only
  split
  · -- The first component is the only one.
    rename_i none_left
    refine ⟨"", rfl, ⟨component, notRoot, ?_⟩, List.nil_prefix⟩
    rw [own, lead, ← filterMap_dropSlack, none_left]
    rfl
  · rename_i left
    obtain ⟨last, more⟩ := exists_last_component left
    have front := (List.prefix_cons_inj (c :: first)).mpr (shortened_isPrefix rest)
    -- The first segment stays, and those behind it lose their last component.
    refine ⟨_, rfl, ⟨last, ne_root_of_filterMap restFree more, ?_⟩, ?_⟩
    · have kept := fun segment member => free segment (front.subset member)
      rw [own, more, ← shortened, components_intercalate filled kept, List.append_assoc]
    · rw [text, String.toList_ofList, String.toList_ofList]
      exact intercalate_isPrefix front

/-- Without a parent a path has no component besides the root. With one it has the components of its
parent and one more, and begins with the text of its parent. -/
theorem parent?_cases (path : String) :
    parent? path = none ∧ depth path = 0 ∨
      ∃ parent, parent? path = some parent ∧ EndsBefore parent path := by
  -- What stands before the first slash tells an absolute path from a relative one.
  by_cases present : path = ""
  · exact .inl (by rw [present]; exact ⟨rfl, rfl⟩)
  · obtain ⟨first, rest, split⟩ := List.exists_cons_of_ne_nil
      (List.splitOn_ne_nil '/' path.toList)
    by_cases filled : first = []
    · subst filled
      rcases parent?_absolute (nil_segment present split).1 split with ⟨top, own⟩ | below
      · exact .inl ⟨top, by rw [depth, own]; rfl⟩
      · exact .inr below
    · exact .inr (parent?_relative filled split)

variable {parent path : String}

/-- A path is deeper by one component than the path that ends before its last one. -/
theorem EndsBefore.depth_eq (before : EndsBefore parent path) : depth path = depth parent + 1 := by
  obtain ⟨last, notRoot, own⟩ := before.components_eq
  -- The last component is the one that the other path does not have, and counts.
  rw [depth, own, List.countP_append, depth, List.countP_cons_of_pos (by simpa using notRoot)]
  rfl

/-- The ancestors of a path without a parent are that path. -/
theorem ancestors_of_none (count : Nat) (top : parent? path = none) :
    ancestors (count + 1) path = [path] := by
  -- The list ends at a path without a parent.
  rw [ancestors, top]

/-- The ancestors of a path with a parent are that path and the ancestors of its parent. -/
theorem ancestors_of_some (count : Nat) (found : parent? path = some parent) :
    ancestors (count + 1) path = path :: ancestors count parent := by
  -- One of the paths that may still be listed is used up.
  rw [ancestors, found]

/-- A path has the same ancestors when more of them are asked for, and the first ones come first. -/
theorem take_ancestors (count more : Nat) (path : String) :
    (ancestors (count + more) path).take count = ancestors count path := by
  -- Each ancestor is the parent of the one before, however many are asked for.
  induction count generalizing path with
  | zero => rfl
  | succ count ih =>
    rw [Nat.succ_add, ancestors, ancestors, List.take_succ_cons]
    cases parent? path with
    | none => simp
    | some parent => exact congrArg (path :: ·) (ih parent)

/-- The ancestors of a path have its components, less and less of them. -/
theorem map_components_ancestors (count : Nat) (path : String) :
    (ancestors count path).map components =
      (List.range (min count (depth path + 1))).map (components path).rdrop := by
  -- Each further ancestor is one of the parent, which has one component less.
  induction count generalizing path with
  | zero => simp [ancestors]
  | succ count ih =>
    rcases parent?_cases path with ⟨top, shallow⟩ | ⟨parent, found, before⟩
    · rw [ancestors_of_none count top, shallow, Nat.min_eq_right (Nat.le_add_left 1 count)]
      simp
    · obtain ⟨last, -, own⟩ := before.components_eq
      rw [ancestors_of_some count found, List.map_cons, ih, before.depth_eq,
        Nat.add_min_add_right, List.range_succ_eq_map, List.map_cons, List.map_map, List.rdrop_zero]
      -- What the parent has left are the components that the path has left one later.
      have later : (components path).rdrop ∘ Nat.succ = (components parent).rdrop := by
        funext dropped
        rw [Function.comp_apply, own, List.rdrop_concat_succ]
      rw [later]

/-- Each ancestor of a path has a text with which the one before it begins. -/
theorem isChain_ancestors (count : Nat) (path : String) :
    (ancestors count path).IsChain fun nearer farther => farther.toList <+: nearer.toList := by
  induction count generalizing path with
  | zero => exact List.isChain_nil
  | succ count ih =>
    rcases parent?_cases path with ⟨top, -⟩ | ⟨parent, found, before⟩
    · rw [ancestors_of_none count top]
      exact List.isChain_singleton path
    · rw [ancestors_of_some count found]
      refine List.isChain_cons.mpr ⟨?_, ih parent⟩
      -- The next ancestor, if any more are asked for, is the parent.
      intro next first
      cases count with
      | zero => cases first
      | succ count =>
        rw [ancestors] at first
        obtain rfl := Option.some.inj first
        exact before.prefix_text

/-- No text comes back among the ancestors of a path. -/
theorem nodup_ancestors (count : Nat) (path : String) : (ancestors count path).Nodup := by
  -- They have different numbers of components.
  apply List.Nodup.of_map components
  rw [map_components_ancestors]
  refine List.Nodup.map_on ?_ List.nodup_range
  intro one member other member' same
  have few : depth path ≤ (components path).length := List.countP_le_length
  have sizes := congrArg List.length same
  rw [List.mem_range] at member member'
  simp only [List.rdrop, List.length_take] at sizes
  omega

/-- A path has as many ancestors as are asked for, up to itself and one for each component besides
the root, so that no more come when more are asked for. The first one is the path. Each has the
components of the path without as many of the last ones as there are ancestors before it, and the
one before it begins with its text. No text comes twice. -/
theorem ancestors_lexical (count : Nat) (path : String) :
    (ancestors count path).length = min count (depth path + 1) ∧
      (∀ more, ancestors (depth path + 1 + more) path = ancestors (depth path + 1) path) ∧
      (ancestors (count + 1) path).head? = some path ∧
      (ancestors count path).map components =
        (List.range (min count (depth path + 1))).map (components path).rdrop ∧
      ((ancestors count path).IsChain fun nearer farther => farther.toList <+: nearer.toList) ∧
      (ancestors count path).Nodup := by
  have length : ∀ count, (ancestors count path).length = min count (depth path + 1) := by
    intro count
    simpa using congrArg List.length (map_components_ancestors count path)
  refine ⟨length count, fun more => ?_, rfl, map_components_ancestors count path,
    isChain_ancestors count path, nodup_ancestors count path⟩
  -- What is taken from the longer search is all of it.
  rw [← take_ancestors (depth path + 1) more path, List.take_of_length_le]
  rw [length]
  omega

/-- Slashes and dots that spell nothing go with the component before them. -/
example : ancestors 10 "//a/./../b/." = ["//a/./../b/.", "//a/./..", "//a", "/"] ∧
    ancestors 10 "./a//b/" = ["./a//b/", "./a", ".", ""] := by
  decide +kernel

end Path

end Stocktake
