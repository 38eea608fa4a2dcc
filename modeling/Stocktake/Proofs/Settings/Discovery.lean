import Stocktake.Settings.Discovery

/-! The nearest settings file that can be read decides on the settings unless its text is unusable,
for then the search goes on. -/

namespace Stocktake

/-- Changing the failures of a result leaves its successes as they are. -/
theorem mapError_eq_ok {ε ε' α : Type} {change : ε → ε'} {result : Except ε α} {value : α} :
    result.mapError change = .ok value ↔ result = .ok value := by
  -- A failure stays one, and a success is passed on.
  cases result with
  | error cause => exact ⟨nofun, nofun⟩
  | ok found =>
    exact ⟨fun same => congrArg Except.ok (Except.ok.inj same), fun same =>
      congrArg Except.ok (Except.ok.inj same)⟩

namespace Workspace

variable {workspace other : Workspace}

/-- The settings in a file are those of its text. -/
theorem settingsIn_eq_ok {path : String} {settings : Settings} :
    workspace.settingsIn path = .ok settings ↔
      ∃ text, workspace.readText path = .ok text ∧ Settings.parse text = .ok settings := by
  -- The text is read first, and then the settings from it.
  rw [settingsIn]
  cases workspace.readText path with
  | error cause => simp
  | ok text =>
    dsimp only
    rw [mapError_eq_ok]
    simp

/-- The text of the nearest settings file that can be read in a list of directories, with the
directories that are farther away than this file. -/
def nearestText? (workspace : Workspace) : List String → Option (String × List String)
  | [] => none
  | directory :: farther =>
    match workspace.readText (Path.join directory settingsFileName) with
    | .ok text => some (text, farther)
    | .error _ => workspace.nearestText? farther

/-- A search takes the settings of the nearest file that can be read, and goes on behind it only
when there are none in its text. -/
theorem firstSettings?_of_nearest {directories farther : List String} {text : String}
    (found : workspace.nearestText? directories = some (text, farther)) :
    workspace.firstSettings? directories =
      match Settings.parse text with
      | .ok settings => some settings
      | .error _ => workspace.firstSettings? farther := by
  -- A directory whose file cannot be read is passed over on both sides.
  induction directories with
  | nil => simp [nearestText?] at found
  | cons directory directories ih =>
    rw [nearestText?] at found
    rw [firstSettings?, settingsIn]
    cases read : workspace.readText (Path.join directory settingsFileName) with
    | error cause =>
      rw [read] at found
      exact ih found
    | ok nearest =>
      -- The first file that can be read is the one in question.
      simp only [read, Option.some.injEq, Prod.mk.injEq] at found
      obtain ⟨rfl, rfl⟩ := found
      dsimp only
      cases Settings.parse nearest with
      | ok settings => rfl
      | error flaw => rfl

/-- Two workspaces whose nearest readable settings file is the same get the settings of its text, or
the standard ones when it has none, exactly when it has some or when neither of them has usable
settings farther away, other than the standard ones; otherwise the settings come from there. -/
theorem settingsFrom_nearest_iff {start text : String} {farther : List String}
    (found : workspace.nearestText? (Path.ancestors searchDepth start) = some (text, farther))
    (found' : other.nearestText? (Path.ancestors searchDepth start) = some (text, farther)) :
    (workspace.settingsFrom start = (Settings.parse text).toOption.getD {} ∧
        other.settingsFrom start = (Settings.parse text).toOption.getD {} ↔
      (∃ settings, Settings.parse text = .ok settings) ∨
        ∀ settings, workspace.firstSettings? farther = some settings ∨
          other.firstSettings? farther = some settings → settings = {}) ∧
      ((Settings.parse text).toOption = none →
        workspace.settingsFrom start = (workspace.firstSettings? farther).getD {} ∧
          other.settingsFrom start = (other.firstSettings? farther).getD {}) := by
  rw [settingsFrom, settingsFrom, firstSettings?_of_nearest found,
    firstSettings?_of_nearest found']
  cases parsed : Settings.parse text with
  | ok settings => simp [Except.toOption]
  | error flaw =>
    -- Without settings in the text, both sides are about what is found farther away.
    refine ⟨?_, fun _ => ⟨rfl, rfl⟩⟩
    cases workspace.firstSettings? farther <;> cases other.firstSettings? farther <;>
      simp [Except.toOption, or_imp, forall_and]

/-- A settings file that names another path for the report. -/
def settingsNaming (path : String) : String :=
  "[output]\npath = \"" ++ path ++ "\"\n"

/-- The start of the sample can be the name of an entry. -/
private theorem isEntryName_below : IsEntryName "app" := by
  -- The name is a fixed text.
  decide

/-- A workspace whose directory `app` has a settings file, and the directory above it another. -/
def withSettings (near far : String) : Workspace where
  tree := ((FileTree.empty.put ⟨"app", isEntryName_below⟩ [] .directory).put
    ⟨settingsFileName, isEntryName_settingsFileName⟩ [⟨"app", isEntryName_below⟩]
      (.file (utf8Encode near.toList))).put
    ⟨settingsFileName, isEntryName_settingsFileName⟩ [] (.file (utf8Encode far.toList))
  here := [⟨"app", isEntryName_below⟩]

/-- A nearest file with valid settings decides, whatever stands in the directory above. -/
theorem settingsFrom_nearest_iff_near :
    (withSettings (settingsNaming "near") "").nearestText? (Path.ancestors searchDepth "/app") =
        some (settingsNaming "near", ["/"]) ∧
      (withSettings (settingsNaming "near") (settingsNaming "far")).nearestText?
        (Path.ancestors searchDepth "/app") = some (settingsNaming "near", ["/"]) ∧
      (withSettings (settingsNaming "near") "").settingsFrom "/app" = { outputPath := "near" } ∧
      (withSettings (settingsNaming "near") (settingsNaming "far")).settingsFrom "/app" =
        { outputPath := "near" } := by
  -- The nearest text is the same with and without a farther file, and it is valid.
  have found : (withSettings (settingsNaming "near") "").nearestText?
      (Path.ancestors searchDepth "/app") = some (settingsNaming "near", ["/"]) := by
    decide +kernel
  have found' : (withSettings (settingsNaming "near") (settingsNaming "far")).nearestText?
      (Path.ancestors searchDepth "/app") = some (settingsNaming "near", ["/"]) := by
    decide +kernel
  have parsed : (Settings.parse (settingsNaming "near")).toOption =
      some { outputPath := "near" } := by
    decide +kernel
  have usable : ∃ settings, Settings.parse (settingsNaming "near") = .ok settings := by
    cases read : Settings.parse (settingsNaming "near") with
    | ok settings => exact ⟨settings, rfl⟩
    | error flaw => simp [read, Except.toOption] at parsed
  obtain ⟨mine, others⟩ := (settingsFrom_nearest_iff found found').1.mpr (.inl usable)
  rw [parsed] at mine others
  exact ⟨found, found', mine, others⟩

/-- A text that is no settings is passed over for the settings in the directory above. -/
theorem settingsFrom_passes_over_unusable :
    (withSettings "not = [valid" (settingsNaming "far")).nearestText?
        (Path.ancestors searchDepth "/app") = some ("not = [valid", ["/"]) ∧
      (Settings.parse "not = [valid").toOption = none ∧
      (withSettings "not = [valid" (settingsNaming "far")).settingsFrom "/app" =
        { outputPath := "far" } ∧
      (withSettings "not = [valid" "").settingsFrom "/app" = {} :=
  -- Both searches meet the same nearest text, which is no settings.
  ⟨by decide +kernel, by decide +kernel, by decide +kernel, by decide +kernel⟩

end Workspace

end Stocktake
