import Stocktake.Path
import Stocktake.Proofs.Text.Separator

/-! The components of a path are read back from their own text, and behind those of a directory. -/

namespace Stocktake

/-- The first segment of a path counts also when it is empty or a dot. -/
def Path.leading : List Char → List Component
  | [] => [.root]
  | ['.'] => [.current]
  | segment => (Path.component? segment).toList

/-- Any other first segment counts as it would elsewhere. -/
theorem Path.leading_eq {segment : List Char} (filled : segment ≠ []) (other : segment ≠ ['.']) :
    leading segment = (component? segment).toList := by
  -- Only an empty segment and a dot are read otherwise at the front.
  unfold leading
  split
  · exact absurd rfl filled
  · exact absurd rfl other
  · rfl

/-- A path whose first segment is empty begins with a slash and goes on behind it. -/
theorem Path.nil_segment {path : String} (present : path ≠ "") {rest : List (List Char)}
    (segments : path.toList.splitOn '/' = [] :: rest) :
    rest ≠ [] ∧ Path.isAbsolute path = true := by
  -- An empty segment in front stands before a slash.
  have back : ['/'].intercalate (path.toList.splitOn '/') = path.toList :=
    List.intercalate_splitOn '/'
  rw [segments] at back
  cases rest with
  | nil => exact absurd (String.toList_eq_nil_iff.mp back.symm) present
  | cons next rest =>
    refine ⟨List.cons_ne_nil next rest, ?_⟩
    rw [Path.isAbsolute, ← back]
    simp

/-- The components of a path are that of its first segment and those of the others. -/
theorem components_eq {path : String} (present : path ≠ "") {first : List Char}
    {rest : List (List Char)} (segments : path.toList.splitOn '/' = first :: rest) :
    Path.components path = Path.leading first ++ rest.filterMap Path.component? := by
  rw [Path.components, segments]
  split
  · rename_i same
    obtain ⟨rfl, rfl⟩ := List.cons.inj same
    rfl
  · rename_i same
    obtain ⟨rfl, rfl⟩ := List.cons.inj same
    rfl
  · rename_i notRoot notCurrent
    -- An empty segment in front would have another one behind it.
    have some : first ≠ [] := by
      rintro rfl
      obtain ⟨next, others, rfl⟩ := List.exists_cons_of_ne_nil (Path.nil_segment present segments).1
      exact absurd rfl (notRoot next others)
    have other : first ≠ ['.'] := by
      rintro rfl
      exact absurd rfl (notCurrent rest)
    rw [Path.leading_eq some other, List.filterMap_cons]
    cases Path.component? first <;> rfl

/-- A component that a segment between slashes can spell. -/
def Component.IsInner : Component → Prop
  | .root | .current => False
  | .parent => True
  | .name text => text ≠ "" ∧ text ≠ "." ∧ text ≠ ".." ∧ '/' ∉ text.toList

/-- An inner component is the one that its own text spells. -/
theorem Component.IsInner.component?_eq {component : Component} (inner : component.IsInner) :
    Path.component? component.text.toList = some component := by
  -- The conditions on an inner component exclude the other readings of its text.
  cases component with
  | root => exact inner.elim
  | current => exact inner.elim
  | parent => rfl
  | name text =>
    obtain ⟨filled, notDot, notDots, _⟩ := inner
    unfold Path.component?
    split
    · exact absurd (String.toList_inj.mp ‹_›) filled
    · exact absurd (String.toList_inj.mp ‹_›) notDot
    · exact absurd (String.toList_inj.mp ‹_›) notDots
    · exact congrArg (some ∘ Component.name) String.ofList_toList

/-- The text of an inner component has no slash in it. -/
theorem Component.IsInner.slash_not_mem {component : Component} (inner : component.IsInner) :
    '/' ∉ component.text.toList := by
  -- For a name this is one of its conditions, and two dots have no slash.
  cases component with
  | root => exact inner.elim
  | current => exact inner.elim
  | parent => decide
  | name text => exact inner.2.2.2

/-- An inner component has a text. -/
theorem Component.IsInner.text_ne_empty {component : Component} (inner : component.IsInner) :
    component.text ≠ "" := by
  -- For a name this is one of its conditions, and two dots are some text.
  cases component with
  | root => exact inner.elim
  | current => exact inner.elim
  | parent => decide
  | name text => exact inner.1

namespace Path

/-- The text of a component that a segment spells is the segment. -/
theorem toList_text_of_component? {segment : List Char} {component : Component}
    (found : component? segment = some component) : component.text.toList = segment := by
  -- A name is spelled by its text, and the parent by two dots.
  unfold component? at found
  split at found
  · cases found
  · cases found
  · obtain rfl := Option.some.inj found
    rfl
  · obtain rfl := Option.some.inj found
    exact String.toList_ofList

/-- A segment that spells no component is empty or a dot. -/
theorem component?_eq_none_iff {segment : List Char} :
    component? segment = none ↔ isSlack segment = true := by
  -- The two readings that give no component are the ones that count as slack.
  unfold component? isSlack
  split <;> simp_all

/-- A first segment with a text has a single component, which it spells. -/
theorem exists_leading {first : List Char} (filled : first ≠ []) :
    ∃ component, leading first = [component] ∧ component.text = String.ofList first := by
  -- At the front a dot is a component, too, and any other segment is read as elsewhere.
  by_cases dot : first = ['.']
  · exact ⟨.current, by rw [dot]; rfl, by rw [dot]; rfl⟩
  · cases found : component? first with
    | none =>
      rcases Bool.or_eq_true_iff.mp (component?_eq_none_iff.mp found) with empty | same
      · exact absurd (List.isEmpty_iff.mp empty) filled
      · exact absurd (eq_of_beq same) dot
    | some component =>
      refine ⟨component, ?_, ?_⟩
      · rw [leading_eq filled dot, found]
        rfl
      · rw [← toList_text_of_component? found, String.ofList_toList]

/-- A segment spells a component that is inner. -/
theorem isInner_of_component? {segment : List Char} (free : '/' ∉ segment) {component : Component}
    (found : component? segment = some component) : component.IsInner := by
  -- A segment is read as a name only when it is neither empty nor one of the dots.
  have text := toList_text_of_component? found
  unfold component? at found
  split at found
  · cases found
  · cases found
  · obtain rfl := Option.some.inj found
    trivial
  · rename_i filled notDot notDots
    obtain rfl := Option.some.inj found
    refine ⟨?_, ?_, ?_, by simpa using free⟩
    · exact fun empty => filled (by rw [← text]; exact congrArg String.toList empty)
    · exact fun dot => notDot (by rw [← text]; exact congrArg String.toList dot)
    · exact fun dots => notDots (by rw [← text]; exact congrArg String.toList dots)

/-- The components of segments are inner. -/
theorem isInner_of_mem_filterMap {segments : List (List Char)}
    (free : ∀ segment ∈ segments, '/' ∉ segment) {component : Component}
    (member : component ∈ segments.filterMap component?) : component.IsInner := by
  -- Each component is spelled by one of the segments.
  obtain ⟨segment, among, found⟩ := List.mem_filterMap.mp member
  exact isInner_of_component? (free segment among) found

/-- Components that a path can have: only the first of them may be a slash or a dot. -/
def AreReadable : List Component → Prop
  | [] => True
  | first :: others =>
    (first.IsInner ∨ first = .root ∨ first = .current) ∧ ∀ component ∈ others, component.IsInner

/-- Inner components are those of some path. -/
theorem areReadable_of_isInner {components : List Component}
    (inner : ∀ component ∈ components, component.IsInner) : AreReadable components := by
  -- An inner component may stand first and behind others.
  cases components with
  | nil => trivial
  | cons first others =>
    obtain ⟨own, others⟩ := List.forall_mem_cons.mp inner
    exact ⟨.inl own, others⟩

/-- Of components that a path can have, those at the end are such, too. -/
theorem AreReadable.of_append {front back : List Component} (readable : AreReadable (front ++ back)) :
    AreReadable back := by
  -- Behind the first component all are inner.
  cases front with
  | nil => exact readable
  | cons first front =>
    exact areReadable_of_isInner fun component member =>
      readable.2 component (List.mem_append_right front member)

/-- A path has components that a path can have. -/
theorem areReadable_components (path : String) : AreReadable (components path) := by
  by_cases present : path = ""
  · rw [present]
    trivial
  · obtain ⟨first, rest, segments⟩ := List.exists_cons_of_ne_nil
      (List.splitOn_ne_nil '/' path.toList)
    have free : ∀ segment ∈ first :: rest, '/' ∉ segment := by
      intro segment member
      rw [← segments] at member
      exact not_mem_of_mem_splitOn member
    obtain ⟨own, others⟩ := List.forall_mem_cons.mp free
    have inner : ∀ component ∈ rest.filterMap component?, component.IsInner :=
      fun _ => isInner_of_mem_filterMap others
    rw [components_eq present segments]
    -- Only the first segment is looked at in another way.
    unfold leading
    split
    · exact ⟨.inr (.inl rfl), inner⟩
    · exact ⟨.inr (.inr rfl), inner⟩
    · refine areReadable_of_isInner fun component member => ?_
      rcases List.mem_append.mp member with here | later
      · exact isInner_of_component? own (Option.mem_toList.mp here)
      · exact inner component later

/-- The text of components, with slashes between them. -/
def spelled (components : List Component) : String :=
  String.intercalate "/" (components.map Component.text)

/-- The text of components as characters. -/
theorem toList_spelled (parts : List Component) :
    (spelled parts).toList = ['/'].intercalate (parts.map (·.text.toList)) := by
  -- Both sides join the texts of the parts with slashes.
  rw [spelled, String.toList_intercalate, List.map_map]
  rfl

/-- Joined components are split again at the slashes between them. -/
private theorem splitOn_spelled {first : Component} {others : List Component}
    (inner : ∀ component ∈ others, component.IsInner) :
    (spelled (first :: others)).toList.splitOn '/' =
      first.text.toList.splitOn '/' ++ others.map (·.text.toList) := by
  -- Only the first component may have a slash in it.
  have free : ∀ piece ∈ others.map (·.text.toList), '/' ∉ piece := by
    intro piece member
    obtain ⟨component, among, rfl⟩ := List.mem_map.mp member
    exact (inner component among).slash_not_mem
  rw [toList_spelled, List.map_cons, splitOn_intercalate_pieces (List.cons_ne_nil _ _),
    List.flatMap_cons, flatMap_splitOn_eq_self free]

/-- Inner components are read back from their texts. -/
private theorem filterMap_component?_map {others : List Component}
    (inner : ∀ component ∈ others, component.IsInner) :
    (others.map (·.text.toList)).filterMap component? = others := by
  -- Each of them is the one that its own text spells.
  induction others with
  | nil => rfl
  | cons component others ih =>
    obtain ⟨own, later⟩ := List.forall_mem_cons.mp inner
    rw [List.map_cons, List.filterMap_cons_some own.component?_eq, ih later]

/-- Components with a text in front are spelled by some text. -/
private theorem spelled_ne_empty {first : Component} (filled : first.text ≠ "")
    (others : List Component) : spelled (first :: others) ≠ "" := by
  -- The text of the first component stands at the front of the whole.
  intro empty
  have bare := congrArg String.toList empty
  rw [toList_spelled] at bare
  cases others <;> simp_all

/-- At the front an inner component is read as it is elsewhere. -/
private theorem leading_of_isInner {first : Component} (inner : first.IsInner) :
    leading first.text.toList = [first] := by
  -- An inner component is neither empty nor a dot.
  have counted := inner.component?_eq
  have filled : first.text.toList ≠ [] := fun empty =>
    inner.text_ne_empty (String.toList_eq_nil_iff.mp empty)
  have other : first.text.toList ≠ ['.'] := by
    intro same
    rw [same] at counted
    cases counted
  rw [leading_eq filled other, counted]
  rfl

/-- Components that a path can have are those of their text. -/
theorem components_spelled {parts : List Component} (readable : AreReadable parts) :
    components (spelled parts) = parts := by
  cases parts with
  | nil => rfl
  | cons first others =>
    obtain ⟨kind, inner⟩ := readable
    have segments := @splitOn_spelled first others inner
    have read := filterMap_component?_map inner
    rcases kind with own | rfl | rfl
    · rw [List.splitOn_eq_singleton own.slash_not_mem, List.singleton_append] at segments
      rw [components_eq (spelled_ne_empty own.text_ne_empty others) segments, read,
        leading_of_isInner own]
      rfl
    · -- A slash in front has an empty segment before it and another one behind it.
      have slash : Component.root.text.toList.splitOn '/' = [[], []] := by decide
      rw [slash] at segments
      rw [components_eq (spelled_ne_empty (by decide) others) segments]
      exact congrArg (Component.root :: ·) read
    · have dot : Component.current.text.toList.splitOn '/' = [['.']] := by decide
      rw [dot] at segments
      rw [components_eq (spelled_ne_empty (by decide) others) segments]
      exact congrArg (Component.current :: ·) read

/-- The components of a text that stands behind a slash: nothing in front of it counts. -/
def innerComponents (text : List Char) : List Component :=
  (text.splitOn '/').filterMap component?

/-- Behind a slash the components of a path go on with those of what stands there. -/
theorem components_append_slash (front back : String) :
    components (front ++ "/" ++ back) =
      (if front = "" then [.root] else components front) ++ innerComponents back.toList := by
  have present : front ++ "/" ++ back ≠ "" := by simp
  obtain ⟨first, rest, own⟩ := List.exists_cons_of_ne_nil (List.splitOn_ne_nil '/' front.toList)
  have segments : (front ++ "/" ++ back).toList.splitOn '/' =
      first :: (rest ++ back.toList.splitOn '/') := by
    rw [String.toList_append, String.toList_append, List.append_assoc]
    show (front.toList ++ '/' :: back.toList).splitOn '/' = _
    rw [List.splitOn_append_cons_self, own, List.cons_append]
  -- The first segment is that of the front, which is empty when the slash itself comes first.
  rw [components_eq present segments, List.filterMap_append, ← List.append_assoc]
  congr 1
  split
  · rename_i empty
    rw [empty] at own
    obtain ⟨rfl, rfl⟩ := List.cons.inj own
    rfl
  · rename_i filled
    rw [components_eq filled own]

end Path

end Stocktake
