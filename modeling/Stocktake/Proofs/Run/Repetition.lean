import Stocktake.Proofs.Run.Agreement
import Stocktake.Proofs.Run.Apart

/-! A run that comes after itself has the same outcome when its artifact is kept apart from what the
run looks at. -/

namespace Stocktake

namespace Workspace

variable {workspace ready after written : Workspace} {access : Access} {request : RunRequest}
  {settings : Settings} {rules : WalkRules} {outcome : RunOutcome} {output : String}
  {name : EntryName} {home : Location} {content : Bytes}

/-- A run with settings, an outcome for them and a finished write is finished. -/
theorem analyze_of_parts (console : Sink) (chosen : workspace.runSettings request = .ok settings)
    (evaluated : workspace.evaluate access settings request = .ok outcome)
    (stored : access.write workspace outcome.outputPath
      (utf8Encode outcome.report.render.toList) = (.ok (), written)) :
    (workspace.analyze access request console).result = .ok outcome ∧
      (workspace.analyze access request console).workspace = written := by
  -- Each stage hands its result to the next one.
  have finished : workspace.writeArtifact access outcome = (.ok (), written) := by
    rw [writeArtifact, stored]
  rw [analyze, chosen]
  dsimp only
  rw [evaluated]
  dsimp only
  rw [finished]
  exact ⟨rfl, rfl⟩

/-- A run that has an outcome has found its root. -/
theorem exists_find_of_evaluate (parsed : WalkRules.ofSettings settings.scan = .ok rules)
    (evaluated : workspace.evaluate .direct settings request = .ok outcome) :
    ∃ base entry, workspace.find request.root = .ok (base, entry) := by
  -- The walk of the run has listed files.
  obtain ⟨files, listed, _⟩ := evaluate_eq_ok evaluated
  rw [sourceFiles_of_rules parsed, mapError_eq_ok] at listed
  exact exists_find_of_walk listed

/-- The place of an artifact is kept apart from what a run looks at. The run is that in the workspace
in which the directories of the artifact have been made, and the artifact is still to come. -/
structure KeepsApart (workspace ready : Workspace) (request : RunRequest) (output : String) :
    Prop where
  /-- The directories let no path lead to a file at which the run looks. -/
  opens : ∀ path, ready.RunLooks request path → ready.isFile path = true →
    workspace.isFile path = true
  /-- No path at which the run looks comes to the place of the artifact, nor does that of the
  directory for it. -/
  besides : ∀ name home, ready.PutsAt output name home →
    ∀ path, ready.RunLooks request path ∨ path = stagingDirectory output →
      ¬ ready.Meets path (name :: home)
  /-- The walk would not take the artifact for a source file. -/
  unselected : ∀ name home, ready.PutsAt output name home →
    ∀ settings rules, ready.runSettings request = .ok settings →
      WalkRules.ofSettings settings.scan = .ok rules →
        ¬ ready.WouldTake rules request.root name home

namespace KeepsApart

/-- The walk of the run looks past the place of the artifact. -/
theorem looksPast (apart : KeepsApart workspace ready request output)
    (puts : ready.PutsAt output name home) (chosen : ready.runSettings request = .ok settings)
    (parsed : WalkRules.ofSettings settings.scan = .ok rules) :
    ready.LooksPast rules request.root name home where
  -- Both conditions are those that the run keeps for the settings it uses.
  besides path looks := apart.besides name home puts path (.inl (.walk chosen parsed looks))
  unselected := apart.unselected name home puts settings rules chosen parsed

/-- Making the directories of its artifact changes nothing for a run. -/
theorem evaluate_ready (apart : KeepsApart workspace ready request output) {paths : List String}
    (grows : workspace.Grows ready paths) (chosen : workspace.runSettings request = .ok settings)
    (evaluated : workspace.evaluate .direct settings request = .ok outcome) :
    ready.runSettings request = .ok settings ∧
      ready.evaluate .direct settings request = .ok outcome := by
  have chosen' : ready.runSettings request = .ok settings := by
    refine (runSettings_eq_of_alike grows.here.symm fun path looks => ?_).1 settings |>.mp chosen
    exact (grows.leadAlike (apart.opens path (.settings looks))).symm
  refine ⟨chosen', (evaluate_eq_of_walk fun rules parsed => ?_).trans evaluated⟩
  -- The directories let no path lead to another file, from the root on.
  obtain ⟨base, entry, here⟩ := exists_find_of_evaluate parsed evaluated
  exact walk_eq_of_walksAlike here (grows.find here) fun plain =>
    grows.walksAlike here plain fun path looks => apart.opens path (.walk chosen' parsed looks)

/-- The artifact of a run changes nothing for a run. -/
theorem evaluate_after (apart : KeepsApart workspace ready request output)
    (gains : ready.Gains after (name :: home) content) (puts : ready.PutsAt output name home)
    (chosen : ready.runSettings request = .ok settings)
    (evaluated : ready.evaluate .direct settings request = .ok outcome) :
    after.runSettings request = .ok settings ∧
      after.evaluate .direct settings request = .ok outcome := by
  -- The settings are looked for past the artifact, and so is everything that the walk asks for.
  have chosen' : after.runSettings request = .ok settings := by
    refine (runSettings_eq_of_alike gains.here fun path looks => ?_).1 settings |>.mpr chosen
    exact gains.leadAlike (apart.besides name home puts path (.inl (.settings looks)))
  refine ⟨chosen', (evaluate_eq_of_walk fun rules parsed => ?_).trans evaluated⟩
  have past := apart.looksPast puts chosen parsed
  obtain ⟨base, entry, here⟩ := exists_find_of_evaluate parsed evaluated
  exact walk_eq_of_walksAlike here ((gains.find_eq_ok_iff (past.besides _ .root)).mpr here)
    fun plain => walksAlike_of_looksPast gains past here plain

/-- With its artifact in place, a run looks at no other paths than before, and so none of them comes
to the artifact. -/
theorem not_meets_after (apart : KeepsApart workspace ready request output)
    (gains : ready.Gains after (name :: home) content) (puts : ready.PutsAt output name home)
    {path : String} (looks : after.RunLooks request path) : ¬ after.Meets path (name :: home) := by
  -- Paths looked at behind the write were looked at before it, in the same three stages.
  have alike : ∀ path, ready.LooksForSettings request path → ready.LeadAlike after path :=
    fun path looks => gains.leadAlike (apart.besides name home puts path (.inl (.settings looks)))
  refine gains.not_meets (apart.besides name home puts path (.inl ?_))
  cases looks with
  | settings looks => exact .settings (((runSettings_eq_of_alike gains.here alike).2 path).mp looks)
  | @walk settings _ _ chosen parsed looks =>
    have chosen' := ((runSettings_eq_of_alike gains.here alike).1 settings).mp chosen
    exact .walk chosen' parsed
      (walkLooks_of_looksPast gains (apart.looksPast puts chosen' parsed) looks)

/-- The artifact is put where it stands once more. -/
theorem putsAt_after (apart : KeepsApart workspace ready request output)
    (gains : ready.Gains after (name :: home) content) (puts : ready.PutsAt output name home)
    (room : (ready.stagingPath (stagingDirectory output)).utf8ByteSize < pathLimit) :
    after.PutsAt output name home := by
  -- The path of its directory does not come to the artifact, and leads where it has led.
  have beside := apart.besides name home puts _ (.inr rfl)
  have found := (gains.find_eq_ok_iff beside).mpr (find_stagingDirectory puts room)
  exact ⟨homeOf_of_find_stagingDirectory puts found, puts.2⟩

end KeepsApart

/-- A finished run that comes at once after itself finishes with the same report and order, and
leaves the same artifact and all else as it is; provided that the place of the artifact is kept apart
from what the run looks at. No path at which the second run looks comes to the artifact then. -/
theorem analyze_again {console again : Sink}
    (finished : (workspace.analyze .direct request console).result = .ok outcome)
    (apart : KeepsApart workspace (workspace.prepare outcome.outputPath).2 request
      outcome.outputPath) :
    let after := (workspace.analyze .direct request console).workspace
    let repeated := after.analyze .direct request again
    repeated.result = .ok outcome ∧
      (∃ place, after.tree.get? place =
          some (.file (utf8Encode outcome.report.render.toList)) ∧
        repeated.workspace.tree.get? place =
          some (.file (utf8Encode outcome.report.render.toList)) ∧
        ∀ path, after.RunLooks request path → ¬ after.Meets path place) ∧
      repeated.workspace.here = after.here ∧
      ∀ place, repeated.workspace.tree.get? place = after.tree.get? place := by
  intro after repeated
  obtain ⟨settings, chosen, evaluated, stored⟩ := analyze_eq_ok finished
  have wrote : workspace.replace outcome.outputPath (utf8Encode outcome.report.render.toList) =
      (.ok (), after) := writeArtifact_eq_ok stored
  -- The first run has made directories, and then put its artifact into one.
  obtain ⟨ready, prepared, staged⟩ := stage_of_replace wrote
  have grows := workspace.grows_prepare outcome.outputPath
  rw [prepared] at grows apart
  obtain ⟨_, room, installed⟩ := stage_eq_ok.mp staged
  obtain ⟨name, home, puts, free, put⟩ := install_eq_ok installed
  have gains : ready.Gains after (name :: home) (utf8Encode outcome.report.render.toList) := by
    rw [put]
    exact ⟨rfl, FileTree.get?_put ⟨directory_of_homeOf puts.1, free⟩, free⟩
  -- Neither changes anything for a run, so that the second one has the same outcome.
  obtain ⟨chosen', evaluated'⟩ := apart.evaluate_ready grows chosen evaluated
  obtain ⟨chosen'', evaluated''⟩ := apart.evaluate_after gains puts chosen' evaluated'
  -- It puts its artifact where the artifact of the first run stands.
  have artifact : after.tree.get? (name :: home) =
      some (.file (utf8Encode outcome.report.render.toList)) := by
    rw [gains.shown, if_pos rfl]
  have room' : (after.stagingPath (stagingDirectory outcome.outputPath)).utf8ByteSize <
      pathLimit := by
    rw [stagingPath, gains.here]
    exact room
  obtain ⟨rewritten, wrote', here, same⟩ :=
    replace_again (apart.putsAt_after gains puts room) artifact room'
  have stored' : Access.direct.write after outcome.outputPath
      (utf8Encode outcome.report.render.toList) = (.ok (), rewritten) := wrote'
  obtain ⟨finished', left⟩ := analyze_of_parts again chosen'' evaluated'' stored'
  have kept : ∀ place, repeated.workspace.tree.get? place = after.tree.get? place := by
    intro place
    rw [left, same]
  refine ⟨finished', ⟨name :: home, artifact, ?_, fun path => ?_⟩, left ▸ here, kept⟩
  · rw [kept, artifact]
  · exact apart.not_meets_after gains puts

/-- A search for settings looks under the name of a settings file only. -/
theorem exists_directory_of_settingsPaths {directories : List String} {path : String}
    (looked : path ∈ workspace.settingsPaths directories) :
    ∃ directory, path = Path.join directory settingsFileName := by
  induction directories with
  | nil => cases looked
  | cons directory farther ih =>
    rw [settingsPaths] at looked
    rcases List.mem_cons.mp looked with here | behind
    · exact ⟨directory, here⟩
    · -- The search has gone on.
      split at behind
      · cases behind
      · exact ih behind

/-- An output whose entry nothing that a run looks at can be, in a workspace without links and in a
directory that is there: it is not the root, no settings file, no ignore file that counts, and it has
no extension that is wanted. -/
structure IsPlainOutput (workspace : Workspace) (request : RunRequest) (output : String)
    (name : EntryName) (home : Location) : Prop where
  puts : workspace.PutsAt output name home
  /-- There is room for the path of a temporary file. -/
  room : (workspace.stagingPath (stagingDirectory output)).utf8ByteSize < pathLimit
  unlinked : ∀ place target, workspace.tree.get? place ≠ some (.link target)
  notRoot : workspace.reach false request.root (stepsOf request.root) ≠ .ok (name :: home)
  notNamed : ∀ path, request.settingsFile = some path →
    workspace.reach false path (stepsOf path) ≠ .ok (name :: home)
  notNearest : request.settingsFile = none → name.text ≠ settingsFileName
  notIgnoring : ∀ settings, workspace.runSettings request = .ok settings →
    settings.scan.respectGitignore = true → name.text ≠ ".gitignore"
  unwanted : ∀ settings, workspace.runSettings request = .ok settings →
    ∀ extension ∈ settings.scan.extensions,
      Path.nameExtension? name.text ≠ some (bareExtension extension)

namespace IsPlainOutput

/-- No rules of the run want a path that ends in the name of the output. -/
theorem wants_eq_false (plain : workspace.IsPlainOutput request output name home)
    (chosen : workspace.runSettings request = .ok settings)
    (parsed : WalkRules.ofSettings settings.scan = .ok rules) (present : request.root ≠ "")
    (outer : Chain) : rules.wants (walkedPath request.root (name :: outer)) = false := by
  have extensions : rules.extensions = settings.scan.extensions.map bareExtension :=
    (ofSettings_eq_ok parsed).1
  rw [WalkRules.wants, extension?_walkedPath present, Bool.and_eq_false_iff]
  refine .inl (Bool.eq_false_iff.mpr fun wanted => ?_)
  -- The extension of a path is that of its last name.
  obtain ⟨extension, own, listed⟩ := (Option.any_eq_true _ _).mp wanted
  rw [extensions, List.contains_iff_mem] at listed
  obtain ⟨spelled, member, rfl⟩ := List.mem_map.mp listed
  exact plain.unwanted settings chosen spelled member own

/-- A path whose last step is another name does not end at the output. -/
theorem ends_apart (plain : workspace.IsPlainOutput request output name home) (directory : String)
    (leaf : EntryName) (differs : leaf.text ≠ name.text) :
    workspace.reach false (Path.join directory leaf.text)
      (stepsOf (Path.join directory leaf.text)) ≠ .ok (name :: home) := by
  intro reached
  -- Without links the path ends under its last name.
  obtain ⟨front, steps⟩ := exists_stepsOf_join directory leaf
  obtain ⟨above, spot⟩ := exists_home_of_reach plain.unlinked steps reached
  exact differs (congrArg EntryName.text (List.cons.inj spot).1).symm

/-- A path of the walk that its rules want does not end at the output. -/
theorem ends_apart_of_wanted (plain : workspace.IsPlainOutput request output name home)
    (chosen : workspace.runSettings request = .ok settings)
    (parsed : WalkRules.ofSettings settings.scan = .ok rules) (present : request.root ≠ "")
    {chain : Chain} (wanted : rules.wants (walkedPath request.root chain) = true) :
    workspace.reach false (walkedPath request.root chain)
      (stepsOf (walkedPath request.root chain)) ≠ .ok (name :: home) := by
  intro reached
  cases chain with
  | nil => exact plain.notRoot reached
  | cons last outer =>
    -- The path would end in the name of the output, and then it is not wanted.
    obtain ⟨front, _, steps⟩ := stepsOf_walkedPath present (List.cons_ne_nil last outer)
    rw [stepsDown, List.reverse_cons, List.map_append, ← List.append_assoc] at steps
    obtain ⟨above, spot⟩ := exists_home_of_reach plain.unlinked steps reached
    obtain rfl := (List.cons.inj spot).1
    rw [plain.wants_eq_false chosen parsed present outer] at wanted
    cases wanted

/-- Such an output is kept apart from what the run looks at. -/
theorem keepsApart (plain : workspace.IsPlainOutput request output name home) :
    KeepsApart workspace (workspace.prepare output).2 request output := by
  -- The directory is there, so that nothing is made.
  rw [prepare_of_putsAt plain.puts plain.room]
  refine ⟨fun path _ leads => leads, fun name' home' puts path looks => ?_,
    fun name' home' puts settings rules chosen parsed => ?_⟩
  · obtain ⟨rfl, rfl⟩ := plain.puts.unique puts
    rw [meets_iff_of_plain plain.unlinked]
    rcases looks with (looks | ⟨chosen, parsed, looks⟩) | rfl
    · cases looks with
      | named asked => exact plain.notNamed path asked
      | nearest unasked looked =>
        obtain ⟨directory, rfl⟩ := exists_directory_of_settingsPaths looked
        exact plain.ends_apart directory ⟨settingsFileName, isEntryName_settingsFileName⟩
          (plain.notNearest unasked).symm
    · cases looks with
      | root => exact plain.notRoot
      | ignoreFile _ _ respected _ _ =>
        rw [(ofSettings_eq_ok parsed).2] at respected
        exact plain.ends_apart _ ⟨".gitignore", by decide⟩
          (plain.notIgnoring _ chosen respected).symm
      | source found _ _ wanted =>
        have present := (reach_eq_ok.mp (find_eq_ok.mp found).1).2.1
        exact plain.ends_apart_of_wanted chosen parsed present wanted
    · -- The directory for the output is not the place in it.
      intro reached
      have leads := (find_eq_ok.mp (find_stagingDirectory plain.puts plain.room)).1
      exact (List.cons_ne_self _ _).symm (Except.ok.inj (leads.symm.trans reached))
  · obtain ⟨rfl, rfl⟩ := plain.puts.unique puts
    rintro ⟨base, entry, outer, found, _, _, _, _, wanted⟩
    have present := (reach_eq_ok.mp (find_eq_ok.mp found).1).2.1
    rw [plain.wants_eq_false chosen parsed present outer] at wanted
    cases wanted

end IsPlainOutput

/-- The name of the artifact under the standard settings. -/
def artifactName : EntryName :=
  ⟨"component-analysis.json", by decide⟩

/-- In a workspace with one component, the standard output is a plain one. -/
theorem isPlainOutput_withComponent :
    withComponent.IsPlainOutput {} "component-analysis.json" artifactName [] := by
  have settled : withComponent.runSettings {} = .ok {} := by decide +kernel
  constructor
  case puts => exact ⟨by decide +kernel, by decide +kernel, by decide +kernel⟩
  case room => decide +kernel
  case unlinked =>
    intro place target link
    -- There are a directory and a file in it.
    rw [withComponent, FileTree.get?_put ⟨by decide +kernel, by decide +kernel⟩,
      FileTree.get?_put ⟨by decide +kernel, by decide +kernel⟩] at link
    split at link
    · cases link
    · split at link
      · cases link
      · cases place with
        | nil => cases link
        | cons name home => simp [FileTree.get?_empty] at link
  case notRoot => decide +kernel
  case notNamed =>
    intro path asked
    cases asked
  case notNearest => exact fun _ => by decide
  case notIgnoring =>
    intro settings chosen respected
    obtain rfl := Except.ok.inj (settled.symm.trans chosen)
    cases respected
  case unwanted =>
    intro settings chosen
    obtain rfl := Except.ok.inj (settled.symm.trans chosen)
    decide

/-- With the standard output, a run of a component is repeated. -/
theorem analyze_again_component : ∃ outcome,
    (withComponent.analyze .direct {} (.fresh none)).result = .ok outcome ∧
      outcome.outputPath = "component-analysis.json" ∧ outcome.report = cardReport ∧
      ((withComponent.analyze .direct {} (.fresh none)).workspace.analyze .direct {}
        (.fresh none)).result = .ok outcome := by
  -- The first run is computed, and the second one is known by the first.
  have computed : (withComponent.analyze .direct {} (.fresh none)).result.toOption.map
      RunOutcome.report = some cardReport := by decide +kernel
  obtain ⟨outcome, finished, reported⟩ := exists_outcome computed
  obtain ⟨settings, chosen, evaluated, _⟩ := analyze_eq_ok finished
  obtain ⟨_, _, _, _, output⟩ := evaluate_eq_ok evaluated
  have settled : withComponent.runSettings {} = .ok {} := by decide +kernel
  obtain rfl := Except.ok.inj (settled.symm.trans chosen)
  have written : outcome.outputPath = "component-analysis.json" := output
  have apart := isPlainOutput_withComponent.keepsApart
  rw [← written] at apart
  exact ⟨outcome, finished, written, reported, (analyze_again finished apart).1⟩

/-- A request to put the report into the directory of the sources. -/
def intoSources (output : String) : RunRequest where
  output := some output

/-- The workspace that a first run with such a request leaves. -/
def withReport (output : String) : Workspace :=
  (withComponent.analyze .direct (intoSources output) (.fresh none)).workspace

/-- A report under the name of a script is taken for a source by a run that comes after the first
one, which then does not have the same outcome. -/
theorem analyze_again_among_sources : ∃ outcome files,
    (withComponent.analyze .direct (intoSources "app/report.js") (.fresh none)).result =
        .ok outcome ∧
      (withReport "app/report.js").sourceFiles {} "app" = .ok files ∧ "app/report.js" ∈ files ∧
      ((withReport "app/report.js").analyze .direct (intoSources "app/report.js")
        (.fresh none)).result ≠ .ok outcome := by
  have computed : (withComponent.analyze .direct (intoSources "app/report.js")
      (.fresh none)).result.toOption.map RunOutcome.report = some cardReport := by decide +kernel
  obtain ⟨outcome, finished, reported⟩ := exists_outcome computed
  have settled : (withReport "app/report.js").runSettings (intoSources "app/report.js") = .ok {} :=
    by decide +kernel
  have here : (withReport "app/report.js").find "app" = .ok ([appName], .directory) := by
    decide +kernel
  -- The report of the first run is one of two scripts below the root of the second.
  have taken : (withReport "app/report.js").takenChains (quietRules {} []) "app" [appName] =
      [[⟨"card.js", by decide⟩], [⟨"report.js", by decide⟩]] := by decide +kernel
  have listed : (withReport "app/report.js").sourceFiles {} "app" =
      .ok ((((withReport "app/report.js").takenChains (quietRules {} []) "app"
        [appName]).mergeSort chainsInOrder).map (walkedPath "app")) := by
    have wellFormed : ({} : ScanSettings).ignored.mapM Glob.parse = .ok [] := rfl
    rw [sourceFiles_eq_walk rfl wellFormed, walk_eq_ok here]
    rfl
  refine ⟨outcome, _, finished, listed, ?_, fun repeated => ?_⟩
  · refine List.mem_map.mpr ⟨[⟨"report.js", by decide⟩], ?_, by decide⟩
    rw [List.mem_mergeSort, taken]
    decide
  · -- The second run would have counted one file more.
    obtain ⟨settings, chosen, evaluated, _⟩ := analyze_eq_ok repeated
    obtain rfl := Except.ok.inj (settled.symm.trans chosen)
    obtain ⟨files, listed', counted, _⟩ := evaluate_eq_ok evaluated
    obtain rfl := Except.ok.inj (listed.symm.trans listed')
    have consistent := (Report.consistent_ofRegistry ({} : Settings).thresholds
      (intoSources "app/report.js").root (Access.direct.read (withReport "app/report.js"))
      ((((withReport "app/report.js").takenChains (quietRules {} []) "app"
        [appName]).mergeSort chainsInOrder).map (walkedPath "app"))).files
    rw [← counted, reported, List.length_map, List.length_mergeSort, taken] at consistent
    simp [cardReport] at consistent

end Workspace

end Stocktake
