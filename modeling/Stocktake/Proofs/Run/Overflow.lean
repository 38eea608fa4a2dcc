import Stocktake.Proofs.Ranking.Overflow
import Stocktake.Proofs.Registry.Failures
import Stocktake.Proofs.Run.Stages

/-! A run ends at once exactly when the effort for a scanned component outgrows a score. -/

namespace Stocktake

/-- The fault that a run ends with, if it has no outcome. -/
def RunEnd.fault? (finish : RunEnd) : Option Fault :=
  match finish.result with
  | .ok _ => none
  | .error fault => some fault

namespace Workspace

/-- A run without an outcome has overflowed when its scan gives components for which it has no
order. -/
theorem evaluate_overflows_iff (workspace : Workspace) (access : Access) (settings : Settings)
    (request : RunRequest) :
    (∃ step, workspace.evaluate access settings request = .error (.overflow step)) ↔
      ∃ registry, workspace.scan settings.scan (access.read workspace) request.root =
          .ok registry ∧
        ∃ component ∈ registry.collection .component,
          wordBound ≤ effort settings.dependencyWeight registry.dependencies component := by
  -- What a scan gives is the registry of the listed files.
  have scanned := Registry.scan_eq_map request.root (access.read workspace) workspace settings.scan
  simp only [← migrationOrder_fails_iff]
  constructor
  · rintro ⟨step, failed⟩
    obtain listed | ⟨files, found, listed, failed', _⟩ := evaluate_eq_error_iff.mp failed
    · -- No list of files is refused with an overflow.
      obtain ⟨_, wrong⟩ | ⟨_, wrong⟩ := sourceFiles_eq_error listed <;> cases wrong
    · exact ⟨_, by rw [scanned, listed]; rfl, found, failed'⟩
  · rintro ⟨registry, given, step, failed⟩
    rw [scanned] at given
    cases listed : workspace.sourceFiles settings.scan request.root with
    | error fault => rw [listed] at given; cases given
    | ok files =>
      rw [listed] at given
      obtain rfl := Except.ok.inj given
      exact ⟨step, evaluate_eq_error_iff.mpr (.inr ⟨files, step, listed, failed, rfl⟩)⟩

/-- A run ends at once exactly when it has settings, its scan gives a registry, and there is a
component whose length and weighted dependencies together are no 64-bit number. -/
theorem analyze_overflows_iff (workspace : Workspace) (access : Access) (request : RunRequest)
    (console : Sink) :
    (∃ step, (workspace.analyze access request console).fault? = some (.overflow step)) ↔
      ∃ settings registry, workspace.runSettings request = .ok settings ∧
        workspace.scan settings.scan (access.read workspace) request.root = .ok registry ∧
        ∃ component ∈ registry.collection .component,
          wordBound ≤ component.loc +
            registry.dependencyCount component.name * settings.dependencyWeight := by
  -- The scores are computed after the settings and the scan, and nothing else overflows.
  constructor
  · rintro ⟨step, failed⟩
    have ends := workspace.endsAs_analyze access request console
    generalize workspace.analyze access request console = finish at ends failed
    cases ends with
    | unsettled refused => cases failed
    | unevaluated chosen stopped =>
      obtain rfl := Option.some.inj failed
      obtain ⟨registry, scanned, large⟩ :=
        (workspace.evaluate_overflows_iff access _ request).mp ⟨step, stopped⟩
      exact ⟨_, registry, chosen, scanned, large⟩
    | unwritten chosen evaluated stopped => cases failed
    | finished chosen evaluated stored => cases failed
  · rintro ⟨settings, registry, chosen, scanned, large⟩
    obtain ⟨step, stopped⟩ :=
      (workspace.evaluate_overflows_iff access settings request).mpr ⟨registry, scanned, large⟩
    refine ⟨step, ?_⟩
    rw [analyze, chosen]
    dsimp only
    rw [stopped]
    rfl

/-- The text of a settings file with the greatest weight that a word can hold. -/
def heaviestSettings : String :=
  "[scoring]\ndependency_weight = 18446744073709551615\n"

/-- The root of the sample can be the name of an entry. -/
private theorem isEntryName_root : IsEntryName "app" := by
  -- The name is a fixed text.
  decide

/-- The script of the sample can be the name of an entry. -/
private theorem isEntryName_script : IsEntryName "card.js" := by
  -- The name is a fixed text, too.
  decide

/-- A workspace with that settings file and a script whose component has one dependency. -/
def withHeaviestSettings : Workspace where
  tree := ((FileTree.empty.put ⟨settingsFileName, isEntryName_settingsFileName⟩ []
    (.file (utf8Encode heaviestSettings.toList))).put ⟨"app", isEntryName_root⟩ [] .directory).put
      ⟨"card.js", isEntryName_script⟩ [⟨"app", isEntryName_root⟩]
      (.file (utf8Encode "app.component('card', {});\nCard.$inject = ['$http']".toList))
  here := []

/-- Settings are accepted with which the score of a component outgrows its bits. -/
theorem analyze_overflows_of_accepted :
    (Settings.parse heaviestSettings).toOption =
        some { dependencyWeight := 18446744073709551615 } ∧
      (withHeaviestSettings.analyze .direct {} (.fresh none)).fault? = some (.overflow .add) :=
  -- Both the settings and the whole run with them are computed.
  ⟨by decide +kernel, by decide +kernel⟩

end Workspace

end Stocktake
