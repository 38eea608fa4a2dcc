import Stocktake.Proofs.FileTree.Replace
import Stocktake.Proofs.Text.Places
import Stocktake.Proofs.Text.Separator

/-! A new content is prepared in the directory in which it is put. -/

namespace Stocktake

/-- A step goes on from a directory, and does not stay in it. -/
def Step.moves (step : Step) : Bool :=
  step != .slash && step != .stay

/-- To a directory, only the steps that move lead. -/
theorem FileTree.follow_filter_moves (tree : FileTree) (links : Nat) (steps : List Step)
    (start : Location) :
    tree.follow false links (steps ++ [.slash]) start =
      tree.follow false links (steps.filter Step.moves ++ [.slash]) start := by
  -- The steps are gone through with those in front of them filtered already.
  suffices filtered : ∀ before : List Step,
      tree.follow false links (before ++ (steps ++ [.slash])) start =
        tree.follow false links (before ++ (steps.filter Step.moves ++ [.slash])) start from
    filtered []
  induction steps with
  | nil => exact fun _ => rfl
  | cons step steps ih =>
    intro before
    cases moving : step.moves with
    | true =>
      rw [List.filter_cons_of_pos moving, List.cons_append, List.cons_append, List.append_cons,
        ih, ← List.append_cons]
    | false =>
      have idle : step = .slash ∨ step = .stay := by
        cases step <;> simp_all [Step.moves]
      obtain ⟨next, rest, shape⟩ : ∃ next rest, steps ++ [Step.slash] = next :: rest :=
        List.exists_cons_of_ne_nil (by simp)
      rw [List.filter_cons_of_neg (by simp [moving]), ← ih, List.cons_append, shape,
        follow_append_idle idle]

/-- A segment that adds no component spells a step that does not move. -/
theorem moves_ofSegment {segment : List Char} (slack : Path.isSlack segment) :
    (Step.ofSegment segment).moves = false := by
  -- It is empty or a dot.
  rw [Path.isSlack, Bool.or_eq_true] at slack
  rcases slack with empty | dot
  · rw [List.isEmpty_iff.mp empty]
    decide
  · rw [eq_of_beq dot]
    decide

/-- The segments that are dropped behind the others spell no step that moves. -/
theorem filter_moves_dropSlack (segments : List (List Char)) :
    ((Path.dropSlack segments).map Step.ofSegment).filter Step.moves =
      (segments.map Step.ofSegment).filter Step.moves := by
  -- Only empty segments and dots are dropped, from the end.
  obtain ⟨dropped, split, slack⟩ := Path.exists_dropSlack_append segments
  have idle : (dropped.map Step.ofSegment).filter Step.moves = [] := by
    rw [List.filter_eq_nil_iff]
    rintro step member
    obtain ⟨segment, inside, rfl⟩ := List.mem_map.mp member
    simp [moves_ofSegment (slack segment inside)]
  conv => rhs; rw [← split, List.map_append, List.filter_append, idle, List.append_nil]

/-- A segment that spells a name does not get dropped. -/
theorem dropSlack_concat {segments : List (List Char)} {segment : List Char}
    (firm : Path.isSlack segment = false) :
    Path.dropSlack (segments ++ [segment]) = segments ++ [segment] := by
  -- Segments are dropped from the end on, and the last one stops that.
  rw [Path.dropSlack, List.reverse_append, List.reverse_singleton, List.singleton_append,
    List.dropWhile_cons_of_neg (by simp [firm])]
  simp

/-- The text of the directory before the last segment of a path. -/
def parentText : List (List Char) → String
  | [] => "."
  | [] :: rest => String.ofList ('/' :: ['/'].intercalate (Path.dropSlack rest))
  | (c :: first) :: rest => String.ofList (['/'].intercalate ((c :: first) :: Path.dropSlack rest))

/-- A content is prepared in the directory before the last segment of its path. -/
theorem stagingDirectory_eq {path : String} {front : List (List Char)} {segment : List Char}
    (segments : path.toList.splitOn '/' = front ++ [segment])
    (firm : Path.isSlack segment = false) :
    Workspace.stagingDirectory path = parentText front := by
  -- What stands behind the first segment ends in the last one, which is not dropped.
  have body : ∀ rest, ∃ next others, rest ++ [segment] = next :: others ∧
      Path.dropSlack (next :: others) = next :: others ∧ (next :: others).dropLast = rest := by
    intro rest
    obtain ⟨next, others, shape⟩ : ∃ next others, rest ++ [segment] = next :: others :=
      List.exists_cons_of_ne_nil (by simp)
    refine ⟨next, others, shape, ?_, ?_⟩
    · rw [← shape, dropSlack_concat firm]
    · rw [← shape, List.dropLast_concat]
  rw [Workspace.stagingDirectory, Path.parent?, segments]
  match front with
  | [] =>
    cases segment with
    | nil => simp [Path.isSlack] at firm
    | cons c segment => rfl
  | [] :: rest =>
    obtain ⟨next, others, shape, firmly, before⟩ := body rest
    rw [List.cons_append, shape]
    dsimp only
    rw [firmly]
    dsimp only
    rw [before, parentText, if_neg (by simp)]
  | (c :: first) :: rest =>
    obtain ⟨next, others, shape, firmly, before⟩ := body rest
    rw [List.cons_append, shape]
    dsimp only
    rw [firmly]
    dsimp only
    rw [before, parentText, if_neg (by simp)]

/-- Segments with slashes between them spell the steps that move as they do one by one. -/
theorem filter_moves_intercalate {segments : List (List Char)}
    (clean : ∀ segment ∈ segments, '/' ∉ segment) :
    (((['/'].intercalate segments).splitOn '/').map Step.ofSegment).filter Step.moves =
      (segments.map Step.ofSegment).filter Step.moves := by
  by_cases empty : segments = []
  · -- The empty text spells a slash, which does not move.
    rw [empty]
    decide
  · rw [List.splitOn_intercalate '/' clean empty]

/-- A path that ends with a name has a last segment that spells it, and those before it spell the
other steps. -/
theorem exists_segments_of_last {path : String} {name : EntryName}
    (last : (Approach.ofSteps (stepsOf path)).last = .down name)
    (bare : (Approach.ofSteps (stepsOf path)).slashed = false) :
    ∃ front segment, path.toList.splitOn '/' = front ++ [segment] ∧
      front.map Step.ofSegment = (Approach.ofSteps (stepsOf path)).leading ∧
      Path.isSlack segment = false := by
  obtain ⟨slashes, _, none, steps⟩ := Approach.steps_split last
  rw [none bare] at steps
  obtain ⟨front, behind, segments, leading, named⟩ := List.map_eq_append_iff.mp steps
  obtain ⟨segment, rfl, spelled⟩ := List.map_eq_singleton_iff.mp named
  refine ⟨front, segment, segments, leading, ?_⟩
  -- A segment that adds no component would not spell a name.
  cases slack : Path.isSlack segment with
  | false => rfl
  | true => simpa [spelled, Step.moves] using moves_ofSegment slack

/-- The directory in which a content is prepared is reached by the steps that move before the last
step of its path, and from where the path begins. -/
theorem stepsOf_stagingDirectory {path : String} {name : EntryName}
    (last : (Approach.ofSteps (stepsOf path)).last = .down name)
    (bare : (Approach.ofSteps (stepsOf path)).slashed = false) :
    (stepsOf (Workspace.stagingDirectory path)).filter Step.moves =
        (Approach.ofSteps (stepsOf path)).leading.filter Step.moves ∧
      Path.isAbsolute (Workspace.stagingDirectory path) = Path.isAbsolute path := by
  obtain ⟨front, segment, segments, leading, firm⟩ := exists_segments_of_last last bare
  have clean : ∀ part ∈ front ++ [segment], '/' ∉ part := fun part member =>
    not_mem_of_mem_splitOn (segments ▸ member)
  have text : path.toList = ['/'].intercalate (front ++ [segment]) := by
    rw [← segments, List.intercalate_splitOn]
  rw [stagingDirectory_eq segments firm, ← leading, Path.isAbsolute, Path.isAbsolute, text]
  match front with
  | [] =>
    -- A name alone is put into the working directory.
    refine ⟨by decide, ?_⟩
    rw [parentText, List.nil_append, List.intercalate_singleton]
    cases segment with
    | nil => rfl
    | cons c segment =>
      have apart : c ≠ '/' := by
        rintro rfl
        exact clean ('/' :: segment) (by simp) List.mem_cons_self
      simp [apart]
  | [] :: rest =>
    -- An absolute path has an empty segment first, which spells its leading slash.
    have inside : ∀ part ∈ Path.dropSlack rest, '/' ∉ part := fun part member =>
      clean part (by simp [(Path.dropSlack_isPrefix rest).subset member])
    have parts : ('/' :: ['/'].intercalate (Path.dropSlack rest)).splitOn '/' =
        [] :: (['/'].intercalate (Path.dropSlack rest)).splitOn '/' :=
      List.splitOn_append_cons_self [] _
    have slash : (Step.ofSegment []).moves = false := rfl
    rw [parentText, stepsOf, String.toList_ofList, parts]
    refine ⟨?_, ?_⟩
    · rw [List.map_cons, List.map_cons, List.filter_cons_of_neg (by simp [slash]),
        List.filter_cons_of_neg (by simp [slash]), filter_moves_intercalate inside,
        filter_moves_dropSlack]
    · obtain ⟨next, others, shape⟩ : ∃ next others, rest ++ [segment] = next :: others :=
        List.exists_cons_of_ne_nil (by simp)
      rw [List.cons_append, shape, List.intercalate_cons_cons]
      rfl
  | (c :: first) :: rest =>
    -- A relative path keeps its first segment, whether or not that is a dot.
    have inside : ∀ part ∈ (c :: first) :: Path.dropSlack rest, '/' ∉ part := by
      intro part member
      rcases List.mem_cons.mp member with rfl | member
      · exact clean _ (by simp)
      · exact clean part (by simp [(Path.dropSlack_isPrefix rest).subset member])
    rw [parentText, stepsOf, String.toList_ofList]
    refine ⟨?_, ?_⟩
    · rw [filter_moves_intercalate inside, List.map_cons, List.map_cons, List.filter_cons,
        List.filter_cons, filter_moves_dropSlack]
    · obtain ⟨next, others, shape⟩ : ∃ next others, rest ++ [segment] = next :: others :=
        List.exists_cons_of_ne_nil (by simp)
      rw [List.cons_append, shape, List.intercalate_cons_cons]
      cases Path.dropSlack rest <;> rfl

namespace Path

/-- A path that is joined to a directory is a part of what comes out. -/
theorem utf8ByteSize_le_join (directory path : String) :
    path.utf8ByteSize ≤ (join directory path).utf8ByteSize := by
  -- It stands alone, or behind the directory with or without a slash between them.
  rw [join]
  split
  · exact Nat.le_refl _
  · split <;> simp only [String.utf8ByteSize_append] <;> omega

/-- So is the directory, unless the path is absolute and takes its place. -/
theorem utf8ByteSize_directory_le_join (directory : String) {path : String}
    (relative : isAbsolute path = false) :
    directory.utf8ByteSize ≤ (join directory path).utf8ByteSize := by
  -- The text of the directory stands at the front, with or without a slash behind it.
  rw [join, relative]
  split
  · contradiction
  · split <;> simp only [String.utf8ByteSize_append] <;> omega

end Path

namespace Workspace

variable {workspace : Workspace} {path : String} {name : EntryName} {home : Location}

/-- The directory in which a content is prepared is not spelled by an empty text. -/
theorem stagingDirectory_ne_empty (path : String) : stagingDirectory path ≠ "" := by
  -- A parent without text is spelled as a dot, and so is a missing one.
  rw [stagingDirectory]
  split
  · split
    · decide
    · rename_i present
      simpa using present
  · decide

/-- Nothing but dots and slashes is spelled in that directory unless it is in the path. -/
theorem not_mem_stagingDirectory {c : Char} (noDot : c ≠ '.') (noSlash : c ≠ '/')
    (last : (Approach.ofSteps (stepsOf path)).last = .down name)
    (bare : (Approach.ofSteps (stepsOf path)).slashed = false) (absent : c ∉ path.toList) :
    c ∉ (stagingDirectory path).toList := by
  obtain ⟨front, segment, segments, _, firm⟩ := exists_segments_of_last last bare
  -- Segments of the path are all that is in it apart from slashes, or else it is a dot.
  have clean : ∀ part ∈ front, c ∉ part := by
    intro part member inside
    have stand := standInOrder_splitOn (fun part => List.infix_rfl) '/' path.toList
    have within : part <:+: path.toList := stand.isInfix (by simp [segments, member])
    exact absent (within.subset inside)
  have separator : c ∉ ['/'] := by simpa using noSlash
  rw [stagingDirectory_eq segments firm]
  match front with
  | [] => simpa [parentText] using noDot
  | [] :: rest =>
    have below : c ∉ ['/'].intercalate (Path.dropSlack rest) :=
      not_mem_intercalate separator fun part member =>
        clean part (List.mem_cons_of_mem _ ((Path.dropSlack_isPrefix rest).subset member))
    rw [parentText, String.toList_ofList]
    simp [noSlash, below]
  | (d :: first) :: rest =>
    rw [parentText, String.toList_ofList]
    refine not_mem_intercalate separator fun part member => ?_
    rcases List.mem_cons.mp member with rfl | member
    · exact clean _ List.mem_cons_self
    · exact clean part (List.mem_cons_of_mem _ ((Path.dropSlack_isPrefix rest).subset member))

/-- The directory in which a content is prepared is the one in which it is put, provided that there
is room for the path of a temporary file. -/
theorem find_stagingDirectory (puts : workspace.PutsAt path name home)
    (room : (workspace.stagingPath (stagingDirectory path)).utf8ByteSize < pathLimit) :
    workspace.find (stagingDirectory path) = .ok (home, .directory) := by
  obtain ⟨found, last, bare⟩ := puts
  obtain ⟨moving, start⟩ := stepsOf_stagingDirectory last bare
  obtain ⟨null, _, _, followed⟩ := reach_eq_ok.mp found
  -- Its text is no longer than that path, and has no character that the system refuses.
  have pure := not_mem_stagingDirectory (by decide) (by decide) last bare null
  have short : (stagingDirectory path).utf8ByteSize < pathLimit :=
    calc (stagingDirectory path).utf8ByteSize
        ≤ (Path.join (pathTo workspace.here) (stagingDirectory path)).utf8ByteSize :=
          Path.utf8ByteSize_le_join _ _
      _ ≤ (workspace.stagingPath (stagingDirectory path)).utf8ByteSize :=
          Path.utf8ByteSize_directory_le_join _ rfl
      _ < pathLimit := room
  -- Both routes have the same steps that move, and end at a directory.
  rw [FileTree.follow_filter_moves, ← moving, ← FileTree.follow_filter_moves, routeStart,
    ← start] at followed
  obtain ⟨followed, inside⟩ := FileTree.follow_append_slash.mp followed
  exact find_eq_ok.mpr
    ⟨reach_eq_ok.mpr ⟨pure, stagingDirectory_ne_empty path, short, followed⟩, inside⟩

/-- A file is put into the directory in which its content is prepared. -/
theorem homeOf_of_find_stagingDirectory {before : Workspace} (puts : before.PutsAt path name home)
    (found : workspace.find (stagingDirectory path) = .ok (home, .directory)) :
    workspace.homeOf path = .ok home := by
  obtain ⟨found', last, bare⟩ := puts
  obtain ⟨moving, start⟩ := stepsOf_stagingDirectory last bare
  obtain ⟨null, present, short, _⟩ := reach_eq_ok.mp found'
  obtain ⟨reached, inside⟩ := find_eq_ok.mp found
  -- To a directory both routes have the same steps that move, from the same place on.
  have followed := FileTree.follow_append_slash.mpr ⟨(reach_eq_ok.mp reached).2.2.2, inside⟩
  rw [FileTree.follow_filter_moves, moving, ← FileTree.follow_filter_moves, routeStart,
    start] at followed
  exact reach_eq_ok.mpr ⟨null, present, short, followed⟩

/-- A path has no directories to make when the last one that it needs is there. -/
theorem prepare_of_putsAt (puts : workspace.PutsAt path name home)
    (room : (workspace.stagingPath (stagingDirectory path)).utf8ByteSize < pathLimit) :
    workspace.prepare path = (.ok (), workspace) := by
  -- The directory before the name is found, so there is nothing to make.
  rw [prepare, pathExists, find_stagingDirectory puts room]
  rfl

/-- A file is put where its path puts it, unless a directory is in the way or there is no room for
the path of a temporary file. -/
theorem replace_of_putsAt {content : Bytes} (puts : workspace.PutsAt path name home)
    (free : workspace.tree.get? (name :: home) ≠ some .directory)
    (room : (workspace.stagingPath (stagingDirectory path)).utf8ByteSize < pathLimit) :
    workspace.replace path content = (.ok (), workspace.withEntry name home (.file content)) := by
  -- The directory is there, a temporary file fits in, and the new content moves over the old.
  have installed : workspace.install path content =
      .ok (workspace.withEntry name home (.file content)) :=
    install_of_putsAt puts free
  unfold replace
  rw [prepare_of_putsAt puts room]
  dsimp only
  rw [stage_eq_ok.mpr ⟨⟨home, find_stagingDirectory puts room⟩, room, installed⟩]

/-- A file that stands where its path puts it is replaced by the same one, without any other
change. -/
theorem replace_again {content : Bytes} (puts : workspace.PutsAt path name home)
    (stands : workspace.tree.get? (name :: home) = some (.file content))
    (room : (workspace.stagingPath (stagingDirectory path)).utf8ByteSize < pathLimit) :
    ∃ again, workspace.replace path content = (.ok (), again) ∧ again.here = workspace.here ∧
      ∀ place, again.tree.get? place = workspace.tree.get? place := by
  have free : workspace.tree.get? (name :: home) ≠ some .directory := by simp [stands]
  refine ⟨_, replace_of_putsAt puts free room, rfl, fun place => ?_⟩
  -- What stands in the place is what is put there.
  rw [withEntry, FileTree.get?_put ⟨directory_of_homeOf puts.1, free⟩]
  split
  · rename_i same
    rw [same, stands]
  · rfl

end Workspace

end Stocktake
