import Stocktake.Proofs.FileTree.Meeting
import Stocktake.Proofs.FileTree.Writing
import Stocktake.Proofs.Run.Inputs

/-! A walk is the same after a write as before when it looks past the file that is written, and the
directories that are made for it open no way to a file. -/

namespace Stocktake

namespace Workspace

/-- Whatever stands at the end of a chain, something stands everywhere along it. -/
theorem isSome_along {tree : FileTree} {chain base : Location}
    (present : (tree.get? (chain ++ base)).isSome) {inner outer : Location}
    (parts : chain = inner ++ outer) : (tree.get? (outer ++ base)).isSome := by
  -- Above the end of the chain there are directories.
  obtain rfl | inside := FileTree.end_or_directory present parts
  · exact present
  · exact Option.isSome_of_mem inside

section Grown

variable {before ready : Workspace} {paths : List String} {rules : WalkRules} {root path : String}
  {base : Location} {entry : Entry}

/-- Directories that are made let a path lead to the same file as before, unless they let it lead to
one in the first place. -/
theorem Grows.leadAlike (grows : before.Grows ready paths)
    (opened : ready.isFile path = true → before.isFile path = true) :
    before.LeadAlike ready path := by
  refine fun place content => ⟨fun found => ?_, grows.find⟩
  obtain ⟨place', content', former⟩ :=
    isFile_iff.mp (opened (isFile_iff.mpr ⟨place, content, found⟩))
  -- The file to which the path has led is the one to which it leads.
  exact former.trans ((grows.find former).symm.trans found)

/-- Directories that are made leave what stands along a chain. -/
theorem Grows.sameAlong (grows : before.Grows ready paths) {chain : Chain}
    (present : (before.tree.get? (chain ++ base)).isSome) : before.SameAlong ready base chain := by
  -- What stood before still stands, and everything along the chain did.
  intro inner outer parts
  obtain ⟨entry, stood⟩ := Option.isSome_iff_exists.mp (isSome_along present parts)
  rw [stood, grows.kept stood]

/-- A walk is not changed by directories that let no path lead to a file at which it looks. -/
theorem Grows.walksAlike (grows : before.Grows ready paths)
    (here : before.find root = .ok (base, entry)) (walked : isStandardInput root = false)
    (opens : ∀ path, ready.WalkLooks rules root path → ready.isFile path = true →
      before.isFile path = true) : before.WalksAlike ready rules root base := by
  have here' := grows.find here
  have stands := Option.isSome_of_mem (find_eq_ok.mp here).2
  have stands' := Option.isSome_of_mem (find_eq_ok.mp here').2
  refine ⟨fun chain respected _ reached _ inside => ?_, fun chain taken => ?_, fun chain taken => ?_⟩
  · exact grows.leadAlike (opens _ (.ignoreFile here' walked respected reached inside))
  · obtain ⟨reached, _, isFile⟩ := (mem_takenChains_iff_wants stands).mp taken
    exact ⟨grows.sameAlong (reached.present stands), grows.leadAlike fun _ => isFile⟩
  · obtain ⟨reached, wanted, isFile⟩ := (mem_takenChains_iff_wants stands').mp taken
    have leads := opens _ (.source here' walked reached wanted)
    refine ⟨grows.sameAlong ?_, grows.leadAlike leads⟩
    -- At the end of the chain stands a file or a link, which has been there before.
    obtain ⟨⟨content, found⟩ | ⟨⟨target, found⟩, _⟩, _⟩ :=
      (isFile_walkedPath here' (reached.present stands')).mp isFile
    · exact Option.isSome_of_mem (grows.stood found (by simp))
    · exact Option.isSome_of_mem (grows.stood found (by simp))

end Grown

/-- A walk would take a file under a name in a directory, if one stood there. -/
def WouldTake (workspace : Workspace) (rules : WalkRules) (root : String) (name : EntryName)
    (home : Location) : Prop :=
  ∃ base entry outer, workspace.find root = .ok (base, entry) ∧ isStandardInput root = false ∧
    outer ++ base = home ∧ workspace.IsReached rules root base outer ∧
    isOpen (workspace.ignoresAt rules root outer) (walkedPath root (name :: outer)) name
      (.file []) = true ∧
    rules.wants (walkedPath root (name :: outer)) = true

/-- A walk looks past a name in a directory: none of its paths comes there, and it would not take a
file that stood there. -/
structure LooksPast (workspace : Workspace) (rules : WalkRules) (root : String) (name : EntryName)
    (home : Location) : Prop where
  besides : ∀ path, workspace.WalkLooks rules root path → ¬ workspace.Meets path (name :: home)
  unselected : ¬ workspace.WouldTake rules root name home

section NewFile

variable {ready after : Workspace} {name : EntryName} {home : Location} {content : Bytes}
  {rules : WalkRules} {root path : String} {base : Location} {entry : Entry}

/-- A path that does not come to a new file leads as before. -/
theorem Gains.leadAlike (gains : ready.Gains after (name :: home) content)
    (apart : ¬ ready.Meets path (name :: home)) : ready.LeadAlike after path :=
  -- A path that never comes to the place of the new file finds what it found before.
  fun _ _ => gains.find_eq_ok_iff apart

variable (gains : ready.Gains after (name :: home) content)
  (past : ready.LooksPast rules root name home)
  (found : ready.find root = .ok (base, entry)) (walked : isStandardInput root = false)
include gains past found walked

/-- Ignore files lead as before when their paths do not come to the new file. -/
theorem rulesAlike_of_looksPast : ready.RulesAlike after rules root base :=
  -- The ignore files of directories that the walk reaches are among the paths looked at.
  fun _ respected reached _ inside _ =>
    gains.leadAlike (past.besides _ (.ignoreFile found walked respected reached inside))

/-- Besides the new file, a walk reaches what it has reached before. -/
theorem isReached_of_looksPast {chain : Chain} (apart : chain ++ base ≠ name :: home)
    (reached : after.IsReached rules root base chain) :
    ready.SameAlong after base chain ∧ ready.IsReached rules root base chain := by
  have found' := (gains.find_eq_ok_iff (past.besides root .root)).mpr found
  have stands := Option.isSome_of_mem (find_eq_ok.mp found').2
  -- Above its end the chain leads through directories, and the new file is none.
  have same : ready.SameAlong after base chain := by
    intro inner outer parts
    rw [gains.shown, if_neg]
    intro spot
    obtain rfl | inside := FileTree.end_or_directory (reached.present stands) parts
    · exact apart spot
    · rw [spot, gains.shown, if_pos rfl] at inside
      simp at inside
  have alike := rulesAlike_of_looksPast gains past found walked
  exact ⟨same, (alike.symm.isReached same.symm reached).1⟩

/-- What a walk reaches under a path that it wants is not the new file. -/
theorem apart_of_wanted {chain : Chain} (reached : after.IsReached rules root base chain)
    (wanted : rules.wants (walkedPath root chain) = true) : chain ++ base ≠ name :: home := by
  intro spot
  cases chain with
  | nil =>
    -- The root does not lead to the place of the new file.
    have meets : ready.Meets root (name :: home) := .inl (spot ▸ (find_eq_ok.mp found).1)
    exact past.besides root .root meets
  | cons last outer =>
    obtain ⟨above, entry, stands, opened⟩ := reached
    have inside' : after.tree.get? (outer ++ base) = some .directory :=
      FileTree.directory_of_isSome (Option.isSome_of_mem stands)
    rw [spot, gains.shown, if_pos rfl] at stands
    obtain rfl := Option.some.inj stands
    obtain rfl : last = name := (List.cons.inj spot).1
    have below : outer ++ base = home := (List.cons.inj spot).2
    -- The directory has the rules that it had before, by which the walk would take the file.
    have apart : outer ++ base ≠ last :: home := by
      rw [below]
      exact (List.cons_ne_self last home).symm
    obtain ⟨same, above'⟩ := isReached_of_looksPast gains past found walked apart above
    have inside := (same [] outer rfl).symm.trans inside'
    have alike := rulesAlike_of_looksPast gains past found walked
    rw [(alike.isReached same above').2 inside] at opened
    exact past.unselected ⟨base, _, outer, found, walked, below, above', opened, wanted⟩

omit found walked in
/-- A walk looks at no other paths than before. -/
theorem walkLooks_of_looksPast (looks : after.WalkLooks rules root path) :
    ready.WalkLooks rules root path := by
  have apart := past.besides root .root
  cases looks with
  | root => exact .root
  | @ignoreFile base entry chain found' walked respected reached inside =>
    have found := (gains.find_eq_ok_iff apart).mp found'
    have beside : chain ++ base ≠ name :: home := by
      -- The new file is no directory.
      intro spot
      rw [spot, gains.shown, if_pos rfl] at inside
      simp at inside
    obtain ⟨same, reached'⟩ := isReached_of_looksPast gains past found walked beside reached
    have inside' := (same [] chain rfl).symm.trans inside
    exact .ignoreFile found walked respected reached' inside'
  | source found' walked reached wanted =>
    have found := (gains.find_eq_ok_iff apart).mp found'
    have beside := apart_of_wanted gains past found walked reached wanted
    exact .source found walked
      (isReached_of_looksPast gains past found walked beside reached).2 wanted

/-- A walk that looks past a new file is not changed by it. -/
theorem walksAlike_of_looksPast : ready.WalksAlike after rules root base := by
  have found' := (gains.find_eq_ok_iff (past.besides root .root)).mpr found
  have stands := Option.isSome_of_mem (find_eq_ok.mp found).2
  have stands' := Option.isSome_of_mem (find_eq_ok.mp found').2
  refine ⟨rulesAlike_of_looksPast gains past found walked, fun chain taken => ?_,
    fun chain taken => ?_⟩
  · obtain ⟨reached, wanted, isFile⟩ := (mem_takenChains_iff_wants stands).mp taken
    have apart := past.besides _ (.source found walked reached wanted)
    refine ⟨fun inner outer parts => ?_, gains.leadAlike apart⟩
    rw [gains.shown, if_neg]
    intro spot
    -- A place along the chain is on the way, where a link would have given way to the new file.
    have present := reached.present stands
    obtain rfl | inside := FileTree.end_or_directory present parts
    · obtain ⟨ends, short⟩ := (isFile_walkedPath found present).mp isFile
      rw [spot] at ends
      rcases ends with ⟨former, stood⟩ | ⟨link, _⟩
      · have leads := find_walkedPath found (spot ▸ stood) (by simp) short
        exact apart (.inl (spot ▸ (find_eq_ok.mp leads).1))
      · have onWay := @mem_way_walkedPath ready root base entry found [] chain present
        exact apart (.inr ⟨link, spot ▸ onWay⟩)
    · exact gains.free (spot ▸ inside)
  · obtain ⟨reached, wanted, _⟩ := (mem_takenChains_iff_wants stands').mp taken
    have beside := apart_of_wanted gains past found walked reached wanted
    obtain ⟨same, reached'⟩ := isReached_of_looksPast gains past found walked beside reached
    exact ⟨same, gains.leadAlike (past.besides _ (.source found walked reached' wanted))⟩

end NewFile

end Workspace

end Stocktake
