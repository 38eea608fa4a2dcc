import Stocktake.Proofs.Walk.Selection

/-! A walk takes the files with an extension of its settings when no dot stands inside of it. -/

namespace Stocktake

namespace Path

/-- The extension of a name is what stands behind the dot that ends the rest of the name. -/
theorem nameExtension?_of_last {name : String} {front last : List Char} (filled : front ≠ [])
    (plain : '.' ∉ last) (shape : name.toList = front ++ '.' :: last) :
    nameExtension? name = some (String.ofList last) := by
  -- From its end the name has what is behind the dot first.
  have reversed : name.toList.reverse = last.reverse ++ '.' :: front.reverse := by
    rw [shape, List.reverse_append, List.reverse_cons, List.append_assoc, List.singleton_append]
  have passes : ∀ c ∈ last.reverse, (c != '.') = true := by
    intro c member
    have apart := ne_of_mem_of_not_mem (List.mem_reverse.mp member) plain
    simpa using apart
  obtain ⟨c, rest, others⟩ := List.exists_cons_of_ne_nil (List.reverse_ne_nil_iff.mpr filled)
  have kept : (last.reverse ++ '.' :: c :: rest).takeWhile (· != '.') = last.reverse := by
    rw [List.takeWhile_append_of_pos passes]
    simp
  have left : (last.reverse ++ '.' :: c :: rest).dropWhile (· != '.') = '.' :: c :: rest := by
    rw [List.dropWhile_append_of_pos passes]
    simp
  rw [nameExtension?, reversed, others]
  simp only [left, kept, List.reverse_reverse]

/-- The extension of a name that is put together is the last part of what is put behind. -/
theorem nameExtension?_append {stem extension name : String} (filled : stem ≠ "")
    (named : name = stem ++ "." ++ extension) :
    nameExtension? name = ((extension.toList.splitOn '.').getLast?).map String.ofList := by
  obtain ⟨last, ends, plain, shape⟩ := exists_last_part '.' extension.toList
  have some_stem : stem.toList ≠ [] := fun empty => filled (String.toList_eq_nil_iff.mp empty)
  have whole : name.toList = stem.toList ++ '.' :: extension.toList := by
    rw [named, String.toList_append, String.toList_append, List.append_assoc]
    rfl
  rw [ends, Option.map_some]
  -- The last dot of the name is the one put in, unless the extension has one of its own.
  obtain same | ⟨front, same⟩ := shape
  · rw [same] at whole
    exact nameExtension?_of_last some_stem plain whole
  · have later : name.toList = (stem.toList ++ '.' :: front) ++ '.' :: last := by
      rw [whole, same, List.append_assoc, List.cons_append]
    exact nameExtension?_of_last (by simp) plain later

end Path

/-- Accepted settings have no blank extension. -/
theorem Settings.not_allBlank_of_validate {settings : Settings}
    (accepted : settings.validate = .ok settings) {extension : String}
    (listed : extension ∈ settings.scan.extensions) : ¬ allBlank extension.toList := by
  -- A blank extension is the first but one of the flaws that are looked for.
  intro blank
  have found : (settings.scan.extensions.any fun name => allBlank name.toList) = true :=
    List.any_eq_true.mpr ⟨extension, listed, blank⟩
  rw [validate, flaw?, found] at accepted
  cases none : settings.scan.extensions.isEmpty <;> simp [none] at accepted

/-- Of an extension nothing but blanks is left when it has nothing but blanks behind its dots. -/
theorem allBlank_bareExtension_iff {extension : String} :
    allBlank (bareExtension extension).toList ↔
      ∃ count blanks, extension.toList = List.replicate count '.' ++ blanks ∧ allBlank blanks := by
  -- The dots in front are a run of them, and nothing else is taken off.
  rw [bareExtension, String.toList_ofList]
  constructor
  · intro blank
    let dots := extension.toList.takeWhile (· == '.')
    have same : dots = List.replicate dots.length '.' :=
      List.eq_replicate_iff.mpr ⟨rfl, fun c member =>
        eq_of_beq (List.all_eq_true.mp List.all_takeWhile c member)⟩
    refine ⟨dots.length, extension.toList.dropWhile (· == '.'), ?_, blank⟩
    rw [← same, List.takeWhile_append_dropWhile]
  · rintro ⟨count, blanks, shape, blank⟩
    have dots : ∀ c ∈ List.replicate count '.', (c == '.') = true := by
      intro c member
      rw [List.eq_of_mem_replicate member]
      rfl
    rw [shape, List.dropWhile_append_of_pos dots]
    exact List.all_eq_true.mpr fun c member =>
      List.all_eq_true.mp blank c ((List.dropWhile_sublist _).subset member)

namespace Workspace

variable {workspace : Workspace} {settings : ScanSettings} {rules : WalkRules} {root : String}
  {base : Location} {entry : Entry}

/-- An entry in the root is reached when its name is not hidden and no ignore file leaves it out. -/
theorem isReached_singleton {name : EntryName}
    (stands : workspace.tree.get? (name :: base) = some entry)
    (shown : Path.isHidden name.text = false)
    (unignored : ignoreVerdict? (workspace.ignoresAt rules root []) (walkedPath root [name])
      (entry == .directory) ≠ some .ignored) :
    workspace.IsReached rules root base [name] := by
  -- Ignore files speak first, and then the rule on hidden names.
  refine ⟨trivial, entry, stands, ?_⟩
  rw [isOpen]
  split
  · exact absurd ‹_› unignored
  · rfl
  · rw [shown]
    rfl

/-- A file stands in the root under a name that a dot and an extension end, less the dots in front of
this, and no pattern and no ignore file leaves it out. -/
structure IsOffered (workspace : Workspace) (rules : WalkRules) (root : String) (base : Location)
    (extension : String) (name : EntryName) : Prop where
  here : workspace.find root = .ok (base, .directory)
  stands : ∃ content, workspace.tree.get? (name :: base) = some (.file content)
  named : ∃ stem, stem ≠ "" ∧ Path.isHidden stem = false ∧
    name.text = stem ++ "." ++ bareExtension extension
  kept : ∀ glob ∈ rules.ignored, glob.matchesPath (walkedPath root [name]) = false
  unignored : ignoreVerdict? (workspace.ignoresAt rules root []) (walkedPath root [name]) false ≠
    some .ignored

/-- A file that is offered is reached. -/
theorem IsOffered.isReached {extension : String} {name : EntryName}
    (offered : workspace.IsOffered rules root base extension name) :
    workspace.IsReached rules root base [name] := by
  obtain ⟨content, stands⟩ := offered.stands
  obtain ⟨stem, filled, shown, named⟩ := offered.named
  refine isReached_singleton stands ?_ offered.unignored
  -- The name begins as its stem does.
  obtain ⟨c, rest, chars⟩ := List.exists_cons_of_ne_nil
    fun empty => filled (String.toList_eq_nil_iff.mp empty)
  rw [Path.isHidden, chars] at shown
  rw [Path.isHidden, named, String.toList_append, String.toList_append, chars]
  exact shown

/-- A path is listed when its chain is reached and it is one to take, but for a lone dash. -/
theorem mem_sourceFiles_iff (wellFormed : WalkRules.ofSettings settings = .ok rules)
    (here : workspace.find root = .ok (base, entry)) {chain : Chain}
    (reached : workspace.IsReached rules root base chain) :
    ∃ files, workspace.sourceFiles settings root = .ok files ∧
      (walkedPath root chain ∈ files ↔ isStandardInput root = false ∧
        workspace.isTaken rules (walkedPath root chain)) := by
  have stands := Option.isSome_of_mem (find_eq_ok.mp here).2
  obtain ⟨files, listed, members, _⟩ := exists_files wellFormed here
  -- Another chain may have the path, too, but whether it is one to take is up to the path.
  refine ⟨files, listed, (members _).trans (and_congr_right fun _ => ⟨?_, fun passes => ?_⟩)⟩
  · rintro ⟨other, taken, same⟩
    rw [← same]
    exact ((mem_takenChains_iff stands).mp taken).2
  · exact ⟨chain, (mem_takenChains_iff stands).mpr ⟨reached, passes⟩, rfl⟩

end Workspace

/-- What stands behind the last dot of an extension is an extension of the settings, too. -/
def ScanSettings.IsEffective (settings : ScanSettings) (extension : String) : Prop :=
  ∃ other ∈ settings.extensions,
    ((bareExtension extension).toList.splitOn '.').getLast? = some (bareExtension other).toList

namespace Workspace

variable {workspace : Workspace} {settings : ScanSettings} {rules : WalkRules} {root : String}
  {base : Location} {extension : String} {name : EntryName}

/-- A file that is offered is taken when its extension is effective and its path below the limit. -/
theorem IsOffered.isTaken_iff (wellFormed : WalkRules.ofSettings settings = .ok rules)
    (offered : workspace.IsOffered rules root base extension name) :
    workspace.isTaken rules (walkedPath root [name]) ↔
      settings.IsEffective extension ∧ (walkedPath root [name]).utf8ByteSize < pathLimit := by
  -- The path has the extension behind the last dot of its name, and leads to the file that is
  -- offered.
  obtain ⟨content, stands⟩ := offered.stands
  obtain ⟨stem, filled, _, named⟩ := offered.named
  have present := (reach_eq_ok.mp (find_eq_ok.mp offered.here).1).2.1
  have read : Path.extension? (walkedPath root [name]) =
      (((bareExtension extension).toList.splitOn '.').getLast?).map String.ofList := by
    rw [extension?_walkedPath present, Path.nameExtension?_append filled named]
  have wanted : (Path.extension? (walkedPath root [name])).any rules.extensions.contains ↔
      settings.IsEffective extension := by
    rw [(ofSettings_eq_ok wellFormed).1, contains_bareExtension_iff, read]
    refine exists_congr fun other => and_congr_right fun _ => ?_
    cases ((bareExtension extension).toList.splitOn '.').getLast? with
    | none => simp
    | some last => simp [← String.toList_inj]
  have leads : workspace.isFile (walkedPath root [name]) ↔
      (walkedPath root [name]).utf8ByteSize < pathLimit := by
    rw [isFile_walkedPath offered.here (Option.isSome_of_mem stands)]
    exact and_iff_right (.inl ⟨content, stands⟩)
  have kept : (!rules.ignored.any (·.matchesPath (walkedPath root [name]))) = true := by
    simpa using offered.kept
  rw [isTaken, kept, Bool.and_true, Bool.and_eq_true, wanted, leads]

/-- An extension of accepted settings is left without a character that is not blank only when it is
spelled with a dot and blanks alone; it is effective when no dot stands inside of it, and a file in
the root that has it is listed when it is effective and only then, from any root but a lone dash and
on a path below the limit. -/
theorem extension_effective_iff {settings : Settings} (accepted : settings.validate = .ok settings)
    (listed : extension ∈ settings.scan.extensions) :
    (allBlank (bareExtension extension).toList ↔
      ∃ count blanks, extension.toList = List.replicate (count + 1) '.' ++ blanks ∧
        allBlank blanks) ∧
    ('.' ∉ (bareExtension extension).toList → settings.scan.IsEffective extension) ∧
    ∀ (workspace : Workspace) (rules : WalkRules) (root : String) (base : Location)
      (name : EntryName), WalkRules.ofSettings settings.scan = .ok rules →
        workspace.IsOffered rules root base extension name →
          ∃ files, workspace.sourceFiles settings.scan root = .ok files ∧
            (walkedPath root [name] ∈ files ↔
              settings.scan.IsEffective extension ∧ isStandardInput root = false ∧
                (walkedPath root [name]).utf8ByteSize < pathLimit) := by
  refine ⟨?_, fun plain => ⟨extension, listed, ?_⟩, ?_⟩
  · rw [allBlank_bareExtension_iff]
    constructor
    · rintro ⟨count, blanks, shape, blank⟩
      cases count with
      | zero =>
        -- Without a dot the extension would be refused.
        refine absurd ?_ (Settings.not_allBlank_of_validate accepted listed)
        rwa [shape]
      | succ count => exact ⟨count, blanks, shape, blank⟩
    · rintro ⟨count, blanks, shape, blank⟩
      exact ⟨count + 1, blanks, shape, blank⟩
  · rw [List.splitOn_eq_singleton plain]
    rfl
  · intro workspace rules root base name wellFormed offered
    obtain ⟨files, found, member⟩ := mem_sourceFiles_iff wellFormed offered.here offered.isReached
    refine ⟨files, found, ?_⟩
    rw [member, offered.isTaken_iff wellFormed, and_left_comm]

/-- An accepted extension with a dot in front is effective, and its file is listed. -/
theorem extension_effective_iff_jsx :
    let settings : Settings := { scan := { extensions := [".jsx"] } }
    let name : EntryName := ⟨"a.jsx", by decide⟩
    settings.validate = .ok settings ∧ settings.scan.IsEffective ".jsx" ∧
      (withSource name []).IsOffered ⟨["jsx"], [], false⟩ "." [] ".jsx" name ∧
      ∃ files, (withSource name []).sourceFiles settings.scan "." = .ok files ∧
        "./a.jsx" ∈ files := by
  -- The file is offered, so whether it is listed hangs on its extension.
  intro settings name
  have accepted : settings.validate = .ok settings := rfl
  have wellFormed : WalkRules.ofSettings settings.scan = .ok ⟨["jsx"], [], false⟩ := rfl
  have offered : (withSource name []).IsOffered ⟨["jsx"], [], false⟩ "." [] ".jsx" name :=
    ⟨rfl, ⟨[], rfl⟩, ⟨"a", by decide, by decide, by decide⟩, by simp, by decide⟩
  have listed : ".jsx" ∈ settings.scan.extensions := by decide
  obtain ⟨_, plain, lists⟩ := extension_effective_iff accepted listed
  have effective := plain (by decide)
  obtain ⟨files, found, member⟩ := lists _ _ _ _ _ wellFormed offered
  have path : walkedPath "." [name] = "./a.jsx" := by decide
  rw [path] at member
  exact ⟨accepted, effective, offered, files, found,
    member.mpr ⟨effective, by decide, by decide⟩⟩

/-- Settings are accepted with an extension of which nothing is left, and with one that has a dot
inside, and a file with that extension is not listed. -/
theorem extension_without_effect :
    let settings : Settings := { scan := { extensions := ["d.ts", "."] } }
    let name : EntryName := ⟨"card.d.ts", by decide⟩
    settings.validate = .ok settings ∧ allBlank (bareExtension ".").toList ∧
      (withSource name []).IsOffered ⟨["d.ts", ""], [], false⟩ "." [] "d.ts" name ∧
      (withSource name []).sourceFiles settings.scan "." = .ok [] := by
  -- Behind the last dot of the name stands another text than either entry.
  intro settings name
  have wellFormed : WalkRules.ofSettings settings.scan = .ok ⟨["d.ts", ""], [], false⟩ := rfl
  have here : (withSource name []).find "." = .ok ([], .directory) := rfl
  have taken : (withSource name []).takenChains ⟨["d.ts", ""], [], false⟩ "." [] = [] := by decide
  refine ⟨rfl, by decide, ⟨here, ⟨[], rfl⟩, ⟨"card", by decide, by decide, by decide⟩, by simp,
    by decide⟩, ?_⟩
  rw [sourceFiles_of_rules wellFormed, walk_eq_ok here, taken, List.mergeSort_nil]
  rfl

end Workspace

end Stocktake
