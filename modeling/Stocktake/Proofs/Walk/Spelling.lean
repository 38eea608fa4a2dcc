import Stocktake.Proofs.Path.Components
import Stocktake.Walk

/-! The path of a chain of names has the components and the steps of its root before theirs. -/

namespace Stocktake

/-- The name of an entry has no slash in it. -/
theorem EntryName.slash_not_mem (name : EntryName) : '/' ∉ name.text.toList :=
  -- This is one of the conditions on a name.
  name.valid.2.2.2.1

/-- The name of an entry has no null in it. -/
theorem EntryName.null_not_mem (name : EntryName) : '\x00' ∉ name.text.toList :=
  -- This is one of the conditions on a name, too.
  name.valid.2.2.2.2.1

/-- The name of an entry is not empty. -/
theorem EntryName.toList_ne_nil (name : EntryName) : name.text.toList ≠ [] :=
  -- A name has some text.
  fun empty => name.valid.1 (String.toList_eq_nil_iff.mp empty)

/-- The name of an entry is a component of paths. -/
theorem EntryName.isInner (name : EntryName) : (Component.name name.text).IsInner :=
  -- A name is neither empty nor one of the dots, and has no slash.
  ⟨name.valid.1, name.valid.2.1, name.valid.2.2.1, name.slash_not_mem⟩

/-- The name of an entry spells a name as a component. -/
theorem EntryName.component? (name : EntryName) :
    Path.component? name.text.toList = some (.name name.text) :=
  -- An inner component is read from its own text.
  name.isInner.component?_eq

/-- The name of an entry spells a step down to it. -/
theorem EntryName.step (name : EntryName) : Step.ofSegment name.text.toList = .down name := by
  -- The other steps are spelled by the empty text and the dots, which are no names.
  obtain ⟨text, valid⟩ := name
  simp only [Step.ofSegment, String.ofList_toList]
  rw [if_neg valid.1, if_neg valid.2.1, if_neg valid.2.2.1, dif_pos valid]

/-- The segments that the names of a chain make. -/
def segmentsOf (chain : Chain) : List (List Char) :=
  chain.reverse.map (·.text.toList)

/-- The text of a chain, the names from the root on with slashes between them. -/
def chainText (chain : Chain) : List Char :=
  ['/'].intercalate (segmentsOf chain)

/-- The segments of a chain are read back from its text. -/
theorem splitOn_chainText {chain : Chain} (deeper : chain ≠ []) :
    (chainText chain).splitOn '/' = segmentsOf chain := by
  -- The names are joined with slashes and have none themselves.
  have some : segmentsOf chain ≠ [] := by simpa [segmentsOf] using deeper
  refine List.splitOn_intercalate '/' (fun segment member => ?_) some
  obtain ⟨name, _, rfl⟩ := List.mem_map.mp member
  exact name.slash_not_mem

/-- The text of a chain does not begin with a slash. -/
private theorem head?_chainText (chain : Chain) : (chainText chain).head? ≠ some '/' := by
  -- The first name has some text before any slash.
  by_cases deeper : chain = []
  · simp [deeper, chainText, segmentsOf]
  · intro slash
    obtain ⟨rest, shape⟩ := List.head?_eq_some_iff.mp slash
    have segments := splitOn_chainText deeper
    -- A slash in front would be preceded by an empty name.
    rw [shape, ← List.nil_append ('/' :: rest), List.splitOn_append_cons_self] at segments
    have empty : [] ∈ segmentsOf chain := by simp [← segments]
    obtain ⟨name, _, same⟩ := List.mem_map.mp empty
    exact name.toList_ne_nil same

/-- The path of a chain is its root, with a slash unless one stands there, and its text. -/
theorem toList_walkedPath {root : String} (present : root ≠ "") {chain : Chain}
    (deeper : chain ≠ []) :
    (∃ front, root.toList = front ++ ['/'] ∧
        (walkedPath root chain).toList = front ++ '/' :: chainText chain) ∨
      (walkedPath root chain).toList = root.toList ++ '/' :: chainText chain := by
  -- The text of the names is relative, so that it is put behind the root.
  have text : (String.intercalate "/" (chain.reverse.map EntryName.text)).toList =
      chainText chain := by
    rw [String.toList_intercalate, List.map_map]
    rfl
  have relative :
      Path.isAbsolute (String.intercalate "/" (chain.reverse.map EntryName.text)) = false := by
    rw [Path.isAbsolute, text]
    simpa using head?_chainText chain
  have shape : walkedPath root chain =
      Path.join root (String.intercalate "/" (chain.reverse.map EntryName.text)) := by
    cases chain with
    | nil => exact absurd rfl deeper
    | cons name chain => rfl
  have full : root.isEmpty = false := by simpa using present
  rw [shape, Path.join, relative, full]
  cases ends : root.toList.getLast? == some '/' with
  | true =>
    obtain ⟨front, slash⟩ := List.getLast?_eq_some_iff.mp (eq_of_beq ends)
    refine .inl ⟨front, slash, ?_⟩
    rw [← text]
    simp [slash]
  | false =>
    right
    rw [← text]
    simp

/-- The path of a chain is not empty. -/
theorem walkedPath_ne_empty {root : String} (present : root ≠ "") (chain : Chain) :
    walkedPath root chain ≠ "" := by
  -- The path has the text of the root or a slash.
  by_cases deeper : chain = []
  · rwa [deeper]
  · intro empty
    have bare : (walkedPath root chain).toList = [] := String.toList_eq_nil_iff.mpr empty
    obtain ⟨front, _, shape⟩ | shape := toList_walkedPath present deeper <;> simp [bare] at shape

/-- The segments of a root are followed by those of the chain; a slash behind it adds none. -/
theorem splitOn_walkedPath {root : String} (present : root ≠ "") {chain : Chain}
    (deeper : chain ≠ []) :
    ∃ front, front ≠ [] ∧
      (root.toList.splitOn '/' = front ∨ root.toList.splitOn '/' = front ++ [[]]) ∧
      (walkedPath root chain).toList.splitOn '/' = front ++ segmentsOf chain := by
  -- A slash behind the root leaves an empty segment there.
  obtain ⟨front, slash, shape⟩ | shape := toList_walkedPath present deeper
  · refine ⟨front.splitOn '/', List.splitOn_ne_nil _ _, .inr ?_, ?_⟩
    · rw [slash, List.splitOn_append_cons_self, List.splitOn_nil]
    · rw [shape, List.splitOn_append_cons_self, splitOn_chainText deeper]
  · refine ⟨root.toList.splitOn '/', List.splitOn_ne_nil _ _, .inl rfl, ?_⟩
    rw [shape, List.splitOn_append_cons_self, splitOn_chainText deeper]

/-- The names of a chain as components, from the root on. -/
def namesOf (chain : Chain) : List Component :=
  chain.reverse.map (.name ·.text)

/-- The segments of a chain spell its names. -/
private theorem filterMap_segmentsOf (chain : Chain) :
    (segmentsOf chain).filterMap Path.component? = namesOf chain := by
  -- Each segment is the text of one name.
  rw [segmentsOf, List.filterMap_map, namesOf, ← List.filterMap_eq_map]
  exact congrFun (congrArg List.filterMap (funext fun name => name.component?)) _

/-- The components of a root are followed by the names of the chain. -/
theorem components_walkedPath {root : String} (present : root ≠ "") (chain : Chain) :
    Path.components (walkedPath root chain) = Path.components root ++ namesOf chain := by
  -- An empty segment behind the root spells no component.
  by_cases deeper : chain = []
  · simp [deeper, walkedPath, namesOf]
  · obtain ⟨front, some, same, segments⟩ := splitOn_walkedPath present deeper
    cases front with
    | nil => exact absurd rfl some
    | cons first front =>
      rw [List.cons_append] at segments
      rw [components_eq (walkedPath_ne_empty present chain) segments, List.filterMap_append,
        filterMap_segmentsOf, ← List.append_assoc]
      congr 1
      obtain same | same := same
      · rw [components_eq present same]
      · rw [List.cons_append] at same
        rw [components_eq present same, List.filterMap_append]
        simp [Path.component?]

/-- The path of a chain has the extension of its last name. -/
theorem extension?_walkedPath {root : String} (present : root ≠ "") (name : EntryName)
    (outer : Chain) :
    Path.extension? (walkedPath root (name :: outer)) = Path.nameExtension? name.text := by
  -- The last name is the last component of the path.
  have last : (Path.components (walkedPath root (name :: outer))).getLast? =
      some (.name name.text) := by
    rw [components_walkedPath present, namesOf, List.reverse_cons, List.map_append,
      ← List.append_assoc]
    exact List.getLast?_concat
  rw [Path.extension?, last]

/-- The steps down along the names of a chain. -/
def stepsDown (chain : Chain) : List Step :=
  chain.reverse.map .down

/-- The segments of a chain are steps down. -/
private theorem map_ofSegment_segmentsOf (chain : Chain) :
    (segmentsOf chain).map Step.ofSegment = stepsDown chain := by
  -- Each segment spells the step down to its name.
  rw [segmentsOf, List.map_map, stepsDown]
  exact congrFun (congrArg List.map (funext fun name => name.step)) _

/-- The steps of a root are followed by those down the chain; a slash behind it is passed over. -/
theorem stepsOf_walkedPath {root : String} (present : root ≠ "") {chain : Chain}
    (deeper : chain ≠ []) :
    ∃ front, (stepsOf root = front ∨ stepsOf root = front ++ [.slash]) ∧
      stepsOf (walkedPath root chain) = front ++ stepsDown chain := by
  -- An empty segment behind the root spells a slash.
  obtain ⟨front, _, same, segments⟩ := splitOn_walkedPath present deeper
  refine ⟨front.map Step.ofSegment, ?_, ?_⟩
  · obtain same | same := same
    · exact .inl (by rw [stepsOf, same])
    · exact .inr (by rw [stepsOf, same, List.map_append]; rfl)
  · rw [stepsOf, segments, List.map_append, map_ofSegment_segmentsOf]

/-- A path begins where its root begins. -/
theorem routeStart_walkedPath {root : String} (present : root ≠ "") (here : Location)
    (chain : Chain) : routeStart here (walkedPath root chain) = routeStart here root := by
  -- The path has the first character of its root.
  have same : Path.isAbsolute (walkedPath root chain) = Path.isAbsolute root := by
    by_cases deeper : chain = []
    · rw [deeper, walkedPath]
    · have filled : root.toList ≠ [] := fun empty => present (String.toList_eq_nil_iff.mp empty)
      rw [Path.isAbsolute, Path.isAbsolute]
      obtain ⟨front, slash, shape⟩ | shape := toList_walkedPath present deeper
      · rw [shape, slash]
        cases front <;> rfl
      · rw [shape]
        obtain ⟨c, rest, filled⟩ := List.exists_cons_of_ne_nil filled
        rw [filled]
        rfl
  rw [routeStart, routeStart, same]

/-- What stands in parts put together is a separator or stands in one of the parts. -/
private theorem mem_intercalate {c separator : Char} {parts : List (List Char)}
    (member : c ∈ [separator].intercalate parts) : c = separator ∨ ∃ part ∈ parts, c ∈ part := by
  -- The parts are put together from the first to the last.
  induction parts with
  | nil => simp at member
  | cons part parts ih =>
    cases parts with
    | nil => exact .inr ⟨part, List.mem_cons_self, by simpa using member⟩
    | cons next parts =>
      rw [List.intercalate_cons_cons, List.mem_append, List.mem_append] at member
      rcases member with (here | between) | later
      · exact .inr ⟨part, List.mem_cons_self, here⟩
      · exact .inl (List.mem_singleton.mp between)
      · obtain between | ⟨other, among, inside⟩ := ih later
        · exact .inl between
        · exact .inr ⟨other, List.mem_cons_of_mem _ among, inside⟩

/-- Names bring no null into a path. -/
theorem null_not_mem_walkedPath {root : String} (present : root ≠ "")
    (pure : '\x00' ∉ root.toList) (chain : Chain) : '\x00' ∉ (walkedPath root chain).toList := by
  -- What is behind the root are slashes and names.
  by_cases deeper : chain = []
  · rwa [deeper]
  · have text : '\x00' ∉ '/' :: chainText chain := by
      intro null
      rcases List.mem_cons.mp null with slash | inside
      · exact absurd slash (by decide)
      · obtain slash | ⟨segment, member, inside⟩ := mem_intercalate inside
        · exact absurd slash (by decide)
        · obtain ⟨name, _, rfl⟩ := List.mem_map.mp member
          exact name.null_not_mem inside
    obtain ⟨front, slash, shape⟩ | shape := toList_walkedPath present deeper
    · rw [slash] at pure
      rw [shape]
      exact fun null => (List.mem_append.mp null).elim
        (fun inside => pure (List.mem_append_left _ inside)) text
    · rw [shape]
      exact fun null => (List.mem_append.mp null).elim pure text

namespace Workspace

/-- The name of an entry is a path that begins where it is read. -/
theorem isAbsolute_text (name : EntryName) : Path.isAbsolute name.text = false := by
  -- A path that is absolute has a slash in it.
  rw [Path.isAbsolute]
  cases chars : name.text.toList with
  | nil => rfl
  | cons c rest =>
    have slash := name.slash_not_mem
    rw [chars] at slash
    simpa using Ne.symm (List.ne_of_not_mem_cons slash)

/-- In the directory in which paths begin, the path of an entry is its name. -/
theorem join_empty (name : EntryName) : Path.join "" name.text = name.text := by
  -- Nothing is put in front of the name.
  rw [Path.join, isAbsolute_text]
  simp

/-- The name of an entry spells one step down. -/
theorem stepsOf_text (name : EntryName) : stepsOf name.text = [.down name] := by
  -- Without a slash the name is the only segment.
  rw [stepsOf, List.splitOn_eq_singleton name.slash_not_mem, List.map_singleton, name.step]

/-- Behind a directory, the name of an entry is the last step. -/
theorem exists_stepsOf_join (directory : String) (name : EntryName) :
    ∃ front, stepsOf (Path.join directory name.text) = front ++ [.down name] := by
  by_cases present : directory = ""
  · exact ⟨[], by rw [present, join_empty, stepsOf_text, List.nil_append]⟩
  · -- The path is that of a chain of one name.
    obtain ⟨front, _, steps⟩ := stepsOf_walkedPath present (List.cons_ne_nil name [])
    exact ⟨front, by simpa [walkedPath, stepsDown] using steps⟩

end Workspace

end Stocktake
