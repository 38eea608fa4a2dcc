import Mathlib.Data.List.Basic
import Stocktake.Proofs.FileTree.Route
import Stocktake.Proofs.Path.Ancestors
import Stocktake.Proofs.Settings.Discovery

/-! A search for settings looks into ten directories, the one in which it begins and the nine above
it; what stands farther up is never found. -/

namespace Stocktake

namespace Workspace

variable {workspace : Workspace} {path : String} {settings : Settings}

/-- Paths that lead to the same entry have the same settings in it. -/
theorem settingsIn_eq_ok_of_find {other : String}
    (same : workspace.find other = workspace.find path)
    (usable : workspace.settingsIn path = .ok settings) :
    workspace.settingsIn other = .ok settings := by
  -- Settings are read from the text of the entry that a path leads to.
  obtain ⟨text, found, parsed⟩ := settingsIn_eq_ok.mp usable
  refine settingsIn_eq_ok.mpr ⟨text, ?_, parsed⟩
  rw [← found, readText, readText, read, read, same]

/-- Without an entry that a path leads to there are no settings. -/
theorem pathExists_of_settingsIn (usable : workspace.settingsIn path = .ok settings) :
    workspace.pathExists path = true := by
  -- A path that leads nowhere has no text to read.
  obtain ⟨text, found, _⟩ := settingsIn_eq_ok.mp usable
  rw [pathExists]
  cases leads : workspace.find path with
  | ok there => rfl
  | error cause =>
    rw [readText, read, leads] at found
    cases found

/-- A directory has a settings file when the path of one in it leads anywhere. -/
def HoldsSettings (workspace : Workspace) (directory : String) : Prop :=
  workspace.pathExists (Path.join directory settingsFileName) = true

/-- Where no directory has a settings file, a search finds none. -/
theorem firstSettings?_eq_none {directories : List String}
    (bare : ∀ directory ∈ directories, ¬ workspace.HoldsSettings directory) :
    workspace.firstSettings? directories = none := by
  -- Settings would have been read from a file.
  induction directories with
  | nil => rfl
  | cons directory farther ih =>
    obtain ⟨here, above⟩ := List.forall_mem_cons.mp bare
    rw [firstSettings?]
    split
    · rename_i settings usable
      exact absurd (pathExists_of_settingsIn usable) here
    · exact ih above

/-- Where all settings files have the same settings in them, a search finds these in the first. -/
theorem firstSettings?_eq_some {directories : List String}
    (same : ∀ directory ∈ directories, workspace.HoldsSettings directory →
      workspace.settingsIn (Path.join directory settingsFileName) = .ok settings)
    (held : ∃ directory ∈ directories, workspace.HoldsSettings directory) :
    workspace.firstSettings? directories = some settings := by
  induction directories with
  | nil => simp at held
  | cons directory farther ih =>
    obtain ⟨here, above⟩ := List.forall_mem_cons.mp same
    rw [firstSettings?]
    by_cases holds : workspace.HoldsSettings directory
    · rw [here holds]
    · -- The search goes on where there is no file.
      have farther : ∃ other ∈ farther, workspace.HoldsSettings other := by
        simpa [holds] using held
      split
      · rename_i found usable
        exact absurd (pathExists_of_settingsIn usable) holds
      · exact ih above farther

/-- One of some directories has a settings file with the given settings in it, and the settings file
that any of them has is this one. -/
def HoldOnly (workspace : Workspace) (directories : List String) (settings : Settings) : Prop :=
  ∃ holder ∈ directories,
    workspace.settingsIn (Path.join holder settingsFileName) = .ok settings ∧
      ∀ directory ∈ directories, workspace.HoldsSettings directory →
        workspace.find (Path.join directory settingsFileName) =
          workspace.find (Path.join holder settingsFileName)

/-- When the ten directories nearest to its start have no settings file, a search ends with the
standard settings, whatever stands farther up. When they and the next one above have a single file,
and it has settings in it, these are found exactly when they are the standard ones, or one of the
ten nearest directories has the file. -/
theorem settingsFrom_reach (workspace : Workspace) (start : String) :
    ((∀ directory ∈ Path.ancestors searchDepth start, ¬ workspace.HoldsSettings directory) →
      workspace.settingsFrom start = {}) ∧
    ∀ settings, workspace.HoldOnly (Path.ancestors (searchDepth + 1) start) settings →
      (workspace.settingsFrom start = settings ↔ settings = {} ∨
        ∃ directory ∈ Path.ancestors searchDepth start, workspace.HoldsSettings directory) := by
  -- A search without a file in its reach ends with the standard settings.
  have missed : (∀ directory ∈ Path.ancestors searchDepth start,
      ¬ workspace.HoldsSettings directory) → workspace.settingsFrom start = {} := by
    intro bare
    rw [settingsFrom, firstSettings?_eq_none bare]
    rfl
  refine ⟨missed, fun settings single => ?_⟩
  obtain ⟨holder, _, usable, same⟩ := single
  by_cases near : ∃ directory ∈ Path.ancestors searchDepth start, workspace.HoldsSettings directory
  · -- All files that the search comes across are the one with these settings.
    have found : workspace.firstSettings? (Path.ancestors searchDepth start) = some settings := by
      refine firstSettings?_eq_some (fun directory member holds => ?_) near
      rw [← Path.take_ancestors searchDepth 1] at member
      exact settingsIn_eq_ok_of_find (same directory (List.mem_of_mem_take member) holds) usable
    exact iff_of_true (by rw [settingsFrom, found]; rfl) (.inr near)
  · have bare : ∀ directory ∈ Path.ancestors searchDepth start,
        ¬ workspace.HoldsSettings directory := by
      simpa using near
    rw [missed bare, or_iff_left near]
    exact eq_comm

/-- A workspace with so many directories inside each other, from the innermost of which paths are
read, and a settings file that names another path for the report in the root. -/
def withFarSettings (depth : Nat) : Workspace where
  tree := ((List.range depth).foldl (fun tree level =>
      tree.put ⟨"d", by decide⟩ (List.replicate level ⟨"d", by decide⟩) .directory)
    FileTree.empty).put ⟨settingsFileName, isEntryName_settingsFileName⟩ []
      (.file (utf8Encode (settingsNaming "far").toList))
  here := List.replicate depth ⟨"d", by decide⟩

/-- The settings at the top are the only ones when every other directory has none. -/
private theorem holdOnly_withFarSettings {depth : Nat} {start : String}
    (top : "/" ∈ Path.ancestors (searchDepth + 1) start)
    (usable : ((withFarSettings depth).settingsIn "/.migramap.toml").toOption =
      some { outputPath := "far" })
    (others : ∀ directory ∈ Path.ancestors (searchDepth + 1) start, directory ≠ "/" →
      (withFarSettings depth).pathExists (Path.join directory settingsFileName) = false) :
    (withFarSettings depth).HoldOnly (Path.ancestors (searchDepth + 1) start)
      { outputPath := "far" } := by
  -- A directory whose settings path leads nowhere holds none.
  have path : Path.join "/" settingsFileName = "/.migramap.toml" := by decide
  refine ⟨"/", top, ?_, fun directory member holds => ?_⟩
  · rw [path]
    cases found : (withFarSettings depth).settingsIn "/.migramap.toml" with
    | error cause => simp [found, Except.toOption] at usable
    | ok settings => simpa [found, Except.toOption] using usable
  · by_cases same : directory = "/"
    · rw [same]
    · rw [HoldsSettings, others directory member same] at holds
      cases holds

/-- The settings file in the ninth directory above the start is found. -/
theorem settingsFrom_reach_ninth :
    (withFarSettings 9).HoldOnly (Path.ancestors (searchDepth + 1) "/d/d/d/d/d/d/d/d/d")
        { outputPath := "far" } ∧
      (withFarSettings 9).settingsFrom "/d/d/d/d/d/d/d/d/d" = { outputPath := "far" } := by
  -- The start is the first of ten directories, so the top is the last one.
  have single := @holdOnly_withFarSettings 9 "/d/d/d/d/d/d/d/d/d" (by decide +kernel)
    (by decide +kernel) (by decide +kernel)
  have near : "/" ∈ Path.ancestors searchDepth "/d/d/d/d/d/d/d/d/d" := by decide +kernel
  have holds : (withFarSettings 9).HoldsSettings "/" := by
    rw [HoldsSettings]
    decide +kernel
  obtain ⟨_, reach⟩ := settingsFrom_reach (withFarSettings 9) "/d/d/d/d/d/d/d/d/d"
  exact ⟨single, (reach _ single).mpr (.inr ⟨"/", near, holds⟩)⟩

/-- The settings file in the tenth directory above the start is not found. -/
theorem settingsFrom_misses_tenth :
    (withFarSettings 10).HoldOnly (Path.ancestors (searchDepth + 1) "/d/d/d/d/d/d/d/d/d/d")
        { outputPath := "far" } ∧
      (withFarSettings 10).settingsFrom "/d/d/d/d/d/d/d/d/d/d" = {} ∧
      ({ outputPath := "far" } : Settings) ≠ {} :=
  -- The top is the eleventh directory, the start included.
  ⟨holdOnly_withFarSettings (by decide +kernel) (by decide +kernel) (by decide +kernel),
    by decide +kernel, by decide⟩

end Workspace

end Stocktake
