import Mathlib.Data.List.Nodup
import Stocktake.Proofs.Toml.Names
import Stocktake.Settings.Discovery

/-! A document decides on the settings that it gives; all others keep their defaults. -/

namespace Stocktake

namespace Toml

/-- A list of texts, as a value. -/
def texts (contents : List String) : Value :=
  .array (contents.map .string)

/-- A counter, as a value. -/
def counter (n : Fin wordBound) : Value :=
  .integer n.val

namespace Value

/-- The members of a section; one that is left out has none. -/
def section? (document : Value) (name : String) : Option (List (String × Value)) :=
  match document with
  | .table sections =>
    match sections.lookup name with
    | none => some []
    | some (.table members) => some members
    | some _ => none
  | _ => none

/-- A section gives each of these names its value, or leaves it out when it has none. -/
def Gives (document : Value) (name : String) (settings : List (String × Option Value)) : Prop :=
  ∃ members, document.section? name = some members ∧
    ∀ setting ∈ settings, members.lookup setting.1 = setting.2

end Value

/-- Among different names, a member is found by its own. -/
theorem lookup_of_mem {members : List (String × Value)}
    (distinct : (members.map Prod.fst).Nodup) {name : String} {value : Value}
    (inside : (name, value) ∈ members) : members.lookup name = some value := by
  -- No member before it has the same name.
  obtain ⟨front, behind, rfl⟩ := List.append_of_mem inside
  refine List.lookup_eq_some_iff.mpr ⟨front, behind, rfl, fun other member => ?_⟩
  rw [List.map_append, List.nodup_append] at distinct
  have apart := distinct.2.2 other.1 (List.mem_map_of_mem member) name (by simp)
  simpa [bne_iff_ne] using Ne.symm apart

/-- The members of a table are readable when each of their values is. -/
theorem membersAreReadable_eq_all (members : List (String × Value)) :
    membersAreReadable members = members.all (·.2.isReadable) := by
  induction members with
  | nil => rfl
  | cons member members ih =>
    obtain ⟨name, value⟩ := member
    -- What is not readable itself ends the check, with the same result.
    rw [membersAreReadable, List.all_cons, ih]
    cases value.isReadable <;> rfl

/-- A table is readable when each of its values is. -/
theorem isReadable_table {members : List (String × Value)} :
    (Value.table members).isReadable = true ↔ ∀ member ∈ members, member.2.isReadable = true := by
  -- A table is readable member by member.
  rw [Value.isReadable, membersAreReadable_eq_all, List.all_eq_true]

/-- A list of texts is readable. -/
theorem isReadable_texts (contents : List String) : (texts contents).isReadable = true := by
  rw [texts, Value.isReadable]
  induction contents with
  | nil => rfl
  | cons content contents ih =>
    -- The text in front is readable by its kind.
    rw [List.map_cons, areReadable]
    exact ih

/-- In a table that is not readable, some member is not. -/
theorem exists_unreadable {members : List (String × Value)}
    (unreadable : (Value.table members).isReadable = false) :
    ∃ member ∈ members, member.2.isReadable = false := by
  -- Otherwise every member would be readable, and so would the table.
  rw [Value.isReadable, membersAreReadable_eq_all, List.all_eq_false] at unreadable
  simpa using unreadable

/-- What is given for a setting is readable when all such values are. -/
theorem isReadable_of_mem_map {α : Type} {encode : α → Value}
    (readable : ∀ content, (encode content).isReadable = true) (given : Option α) :
    ∀ value ∈ given.map encode, value.isReadable = true := by
  -- The value is the encoding of what is given.
  intro value member
  obtain ⟨content, _, rfl⟩ := Option.map_eq_some_iff.mp member
  exact readable content

end Toml

/-- The settings that a document gives, each of which it may leave out. -/
structure SettingsChoice where
  extensions : Option (List String)
  ignored : Option (List String)
  respectGitignore : Option Bool
  lowMax : Option (Fin wordBound)
  mediumMax : Option (Fin wordBound)
  dependencyWeight : Option (Fin wordBound)
  outputPath : Option String

namespace SettingsChoice

/-- The settings that are given, and the defaults of the others. -/
def settings (choice : SettingsChoice) : Settings :=
  let standard : Settings := {}
  { scan :=
      { extensions := choice.extensions.getD standard.scan.extensions
        ignored := choice.ignored.getD standard.scan.ignored
        respectGitignore := choice.respectGitignore.getD standard.scan.respectGitignore }
    thresholds :=
      { lowMax := (choice.lowMax.map Fin.val).getD standard.thresholds.lowMax
        mediumMax := (choice.mediumMax.map Fin.val).getD standard.thresholds.mediumMax }
    dependencyWeight := (choice.dependencyWeight.map Fin.val).getD standard.dependencyWeight
    outputPath := choice.outputPath.getD standard.outputPath }

/-- A document gives exactly the chosen settings in their sections. -/
structure IsGivenBy (choice : SettingsChoice) (document : Toml.Value) : Prop where
  scan : document.Gives "scan"
    [("extensions", choice.extensions.map Toml.texts), ("ignore", choice.ignored.map Toml.texts),
      ("respect_gitignore", choice.respectGitignore.map .bool)]
  thresholds : document.Gives "thresholds"
    [("low_max", choice.lowMax.map Toml.counter), ("medium_max", choice.mediumMax.map Toml.counter)]
  scoring : document.Gives "scoring"
    [("dependency_weight", choice.dependencyWeight.map Toml.counter)]
  output : document.Gives "output" [("path", choice.outputPath.map .string)]

end SettingsChoice

/-- Settings can be used when they name extensions, none of which is blank, and their thresholds
ascend. -/
structure Settings.Usable (settings : Settings) : Prop where
  named : settings.scan.extensions ≠ []
  filled : ∀ name ∈ settings.scan.extensions, allBlank name.toList = false
  ascending : settings.thresholds.lowMax < settings.thresholds.mediumMax

/-- Settings without a flaw are those that can be used. -/
theorem Settings.flaw?_eq_none {settings : Settings} : settings.flaw? = none ↔ settings.Usable := by
  -- Flaws are looked for one after the other, and each is the opposite of one of the conditions.
  rw [flaw?]
  constructor
  · intro flawless
    split at flawless
    · cases flawless
    · rename_i named
      split at flawless
      · cases flawless
      · rename_i filled
        split at flawless
        · cases flawless
        · rename_i ascending
          exact ⟨by simpa using named, by simpa using filled, Nat.not_le.mp ascending⟩
  · rintro ⟨named, filled, ascending⟩
    rw [if_neg (by simpa using named), if_neg (by simpa using filled),
      if_neg (Nat.not_le.mpr ascending)]

namespace Decode

open Toml

/-- Texts are read back from their list. -/
theorem list_texts (contents : List String) : list text (texts contents) = some contents := by
  -- The items are read from the first to the last, each as its text.
  have shown : Document.shape (texts contents) = .items (contents.map Value.string) := rfl
  rw [list, shown]
  dsimp only
  induction contents with
  | nil => rfl
  | cons content contents ih =>
    rw [List.map_cons, List.mapM_cons, ih rfl]
    rfl

/-- A text is read back from its value. -/
theorem text_string (content : String) : text (Value.string content) = some content :=
  -- A text is shown as the reader expects it.
  rfl

/-- A truth value is read back from its value. -/
theorem bool_truth (truth : Bool) : bool (Value.bool truth) = some truth :=
  -- A truth value is shown as the reader expects it.
  rfl

/-- A counter is read back from its value. -/
theorem natural_counter (n : Fin wordBound) : natural (counter n) = some n.val := by
  -- A counter is below the bound that the reader asks for.
  have shown : Document.shape (counter n) = .natural n.val := rfl
  rw [natural, shown]
  exact if_pos n.isLt

/-- A field is read as what is given for it, or keeps its default. -/
theorem optional_map {α β : Type} {read : Value → Option β} {encode : α → Value} {decode : α → β}
    (reads : ∀ content, read (encode content) = some (decode content)) (standard : β)
    (given : Option α) :
    optional read standard (given.map encode) = some ((given.map decode).getD standard) := by
  -- A value that is given is read, and one that is not given needs no reading.
  cases given with
  | none => rfl
  | some content => exact reads content

/-- Looking for a name finds the value under it. -/
private theorem find?_eq_lookup (members : List (String × Value)) (name : String) :
    (members.find? (·.1 == name)).map Prod.snd = members.lookup name := by
  -- Both searches pass over the same members.
  induction members with
  | nil => rfl
  | cons member members ih =>
    obtain ⟨label, value⟩ := member
    by_cases same : label = name
    · simp [same]
    · have other : (name == label) = false := beq_false_of_ne (Ne.symm same)
      simp [same, ih, List.lookup_cons, other]

/-- From a readable table without a name twice, every field is what its name stands for. -/
theorem fields_table {members : List (String × Value)}
    (readable : (Value.table members).isReadable = true)
    (distinct : (members.map Prod.fst).Nodup) (names : List String) :
    fields names (Value.table members) = some (names.map fun name => members.lookup name) := by
  have shown : Document.shape (Value.table members) = .fields members := rfl
  -- Members of other names are readable, and none of the names comes twice.
  have passes : (members.all fun member =>
      names.contains member.1 || Document.isReadable member.2) = true := by
    refine List.all_eq_true.mpr fun member inside => Bool.or_eq_true_iff.mpr (.inr ?_)
    exact isReadable_table.mp readable member inside
  have once : (names.all fun name => (members.filter (·.1 == name)).length ≤ 1) = true := by
    refine List.all_eq_true.mpr fun name _ => decide_eq_true ?_
    have least := List.nodup_iff_count_le_one.mp distinct name
    rwa [List.count, List.countP_map, List.countP_eq_length_filter] at least
  rw [fields, shown]
  simp only [passes, once, Bool.and_self, if_true, find?_eq_lookup]

/-- When fields are read from a table at all, they are what their names stand for. -/
theorem fields_table_cases (members : List (String × Value)) (names : List String) :
    fields names (Value.table members) = none ∨
      fields names (Value.table members) = some (names.map fun name => members.lookup name) := by
  have shown : Document.shape (Value.table members) = .fields members := rfl
  rw [fields, shown]
  -- Only whether they are read depends on the other members.
  dsimp only
  split
  · exact .inr (congrArg some (List.map_congr_left fun name _ => find?_eq_lookup members name))
  · exact .inl rfl

/-- A member of another name that is not readable keeps all fields from being read. -/
theorem fields_eq_none {members : List (String × Value)} {names : List String}
    {member : String × Value} (inside : member ∈ members) (other : member.1 ∉ names)
    (unreadable : member.2.isReadable = false) : fields names (Value.table members) = none := by
  have shown : Document.shape (Value.table members) = .fields members := rfl
  have stops : (members.all fun member =>
      names.contains member.1 || Document.isReadable member.2) = false := by
    refine List.all_eq_false.mpr ⟨member, inside, ?_⟩
    -- The member has none of the names, and so is looked into.
    change ¬ (names.contains member.1 || member.2.isReadable) = true
    simp [other, unreadable]
  rw [fields, shown]
  simp only [stops, Bool.false_and, Bool.false_eq_true, if_false]

/-- A section is read as what is given in it. One that is left out is read as an empty one would be,
as long as its defaults are those of its settings. -/
theorem optional_section {β : Type} {read : Value → Option β} {standard chosen : β}
    {sections : List (String × Value)} {name : String} {settings : List (String × Option Value)}
    (readable : (Value.table sections).isReadable = true)
    (distinct : (Value.table sections).NamesDistinct)
    (given : (Value.table sections).Gives name settings)
    (bare : read (.table []) = some standard)
    (reads : ∀ value, fields (settings.map Prod.fst) value = some (settings.map Prod.snd) →
      read value = some chosen) :
    optional read standard (sections.lookup name) = some chosen := by
  obtain ⟨members, found, each⟩ := given
  -- The members that a section has are read, also when there are none.
  have gives : ∀ inner : List (String × Value), (Value.table inner).isReadable = true →
      (inner.map Prod.fst).Nodup → inner = members → read (.table inner) = some chosen := by
    rintro inner plain once rfl
    refine reads _ ?_
    rw [fields_table plain once, List.map_map]
    exact congrArg some (List.map_congr_left each)
  rw [Value.section?] at found
  cases there : sections.lookup name with
  | none =>
    rw [there] at found
    exact bare.symm.trans (gives [] rfl List.nodup_nil (Option.some.inj found))
  | some value =>
    rw [there] at found
    obtain ⟨front, behind, rfl, _⟩ := List.lookup_eq_some_iff.mp there
    have inside : (name, value) ∈ front ++ (name, value) :: behind := by simp
    cases value with
    | table inner =>
      have once := (namesDistinct_table.mp distinct).2 _ inside
      exact gives inner (isReadable_table.mp readable _ inside) (namesDistinct_table.mp once).1
        (Option.some.inj found)
    | _ => cases found

/-- A section that is not readable, though the settings given in it are, is not read. -/
theorem optional_section_eq_none {β : Type} {read : Value → Option β} {standard : β}
    {sections : List (String × Value)} {name : String} {settings : List (String × Option Value)}
    {value : Value} (distinct : (Value.table sections).NamesDistinct)
    (given : (Value.table sections).Gives name settings)
    (readable : ∀ setting ∈ settings, ∀ content ∈ setting.2, content.isReadable = true)
    (inside : (name, value) ∈ sections) (unreadable : value.isReadable = false)
    (reads : ∀ value, fields (settings.map Prod.fst) value = none → read value = none) :
    optional read standard (sections.lookup name) = none := by
  obtain ⟨members, found, each⟩ := given
  have there : sections.lookup name = some value :=
    lookup_of_mem (namesDistinct_table.mp distinct).1 inside
  rw [Value.section?] at found
  simp only [there] at found
  rw [there]
  cases value with
  | table inner =>
    obtain rfl := Option.some.inj found
    have once := (namesDistinct_table.mp ((namesDistinct_table.mp distinct).2 _ inside)).1
    -- Something in the section is not readable, and it is none of the settings.
    obtain ⟨member, among, cause⟩ := exists_unreadable unreadable
    refine reads _ (fields_eq_none among (fun known => ?_) cause)
    obtain ⟨setting, chosen, same⟩ := List.mem_map.mp known
    have content : setting.2 = some member.2 := by
      rw [← each setting chosen, same]
      exact lookup_of_mem once among
    rw [readable setting chosen member.2 content] at cause
    cases cause
  | _ => cases found

/-- The one setting of a section is read as what is given for it, or keeps its default. -/
theorem decodeSection?_eq {α β : Type} {read : Value → Option β} {encode : α → Value}
    {decode : α → β} (reads : ∀ content, read (encode content) = some (decode content))
    {standard : β} {given : Option α} {name : String} {value : Value}
    (found : fields [name] value = some [given.map encode]) :
    decodeSection? name read standard value = some ((given.map decode).getD standard) := by
  -- The one field is what is given, encoded.
  rw [decodeSection?, found]
  exact optional_map reads standard given

end Decode

namespace SettingsChoice

open Decode

variable {choice : SettingsChoice} {value document : Toml.Value}

/-- The settings of a scan that a section gives are decoded. -/
theorem decode?_scan
    (found : fields ["extensions", "ignore", "respect_gitignore"] value =
      some [choice.extensions.map Toml.texts, choice.ignored.map Toml.texts,
        choice.respectGitignore.map .bool]) :
    ScanSettings.decode? value = some choice.settings.scan := by
  -- Each of the three fields is read as what is given for it.
  rw [ScanSettings.decode?, found]
  simp only [Option.bind_eq_bind, Option.bind_some, optional_map list_texts,
    optional_map bool_truth, Option.map_id']
  rfl

/-- The thresholds that a section gives are decoded. -/
theorem decode?_thresholds
    (found : fields ["low_max", "medium_max"] value =
      some [choice.lowMax.map Toml.counter, choice.mediumMax.map Toml.counter]) :
    Thresholds.decode? value = some choice.settings.thresholds := by
  -- Each of the two bounds is read as what is given for it.
  rw [Thresholds.decode?, found]
  simp only [Option.bind_eq_bind, Option.bind_some, optional_map natural_counter]
  rfl

/-- The settings that a document gives are decoded, and all others have their defaults. -/
theorem decode?_of_isGivenBy (readable : document.isReadable = true)
    (distinct : document.NamesDistinct) (given : choice.IsGivenBy document) :
    Settings.decode? document = some choice.settings := by
  obtain ⟨scan, thresholds, scoring, output⟩ := given
  cases document with
  | table sections =>
    -- Each of the four sections yields its part of the settings.
    have scanned : optional ScanSettings.decode? ({} : Settings).scan (sections.lookup "scan") =
        some choice.settings.scan :=
      optional_section readable distinct scan rfl fun _ => decode?_scan
    have bounded : optional Thresholds.decode? ({} : Settings).thresholds
        (sections.lookup "thresholds") = some choice.settings.thresholds :=
      optional_section readable distinct thresholds rfl fun _ => decode?_thresholds
    have weighted : optional
        (decodeSection? "dependency_weight" natural ({} : Settings).dependencyWeight)
        ({} : Settings).dependencyWeight (sections.lookup "scoring") =
          some choice.settings.dependencyWeight :=
      optional_section readable distinct scoring rfl fun _ => decodeSection?_eq natural_counter
    have placed : optional (decodeSection? "path" text ({} : Settings).outputPath)
        ({} : Settings).outputPath (sections.lookup "output") =
          some choice.settings.outputPath := by
      refine optional_section readable distinct output rfl fun _ found => ?_
      rw [decodeSection?_eq text_string found, Option.map_id']
      rfl
    rw [Settings.decode?, fields_table readable (Toml.namesDistinct_table.mp distinct).1]
    simp only [Option.bind_eq_bind, Option.bind_some, List.map_cons, List.map_nil, scanned, bounded,
      weighted, placed]
    rfl
  | _ =>
    -- Nothing but a table has sections.
    obtain ⟨members, found, _⟩ := scan
    cases found

/-- Without its sections there are no settings. -/
theorem decode?_eq_none_of_section {sections : List (String × Toml.Value)}
    (unread : optional ScanSettings.decode? ({} : Settings).scan (sections.lookup "scan") = none ∨
      optional Thresholds.decode? ({} : Settings).thresholds
        (sections.lookup "thresholds") = none ∨
      optional (decodeSection? "dependency_weight" natural ({} : Settings).dependencyWeight)
        ({} : Settings).dependencyWeight (sections.lookup "scoring") = none ∨
      optional (decodeSection? "path" text ({} : Settings).outputPath)
        ({} : Settings).outputPath (sections.lookup "output") = none) :
    Settings.decode? (Toml.Value.table sections) = none := by
  rw [Settings.decode?]
  -- One section that cannot be read is enough, whatever the others hold.
  rcases fields_table_cases sections ["scan", "thresholds", "scoring", "output"] with none | some
  · rw [none]
    rfl
  · rw [some]
    simp only [List.map_cons, List.map_nil, Option.bind_eq_bind, Option.bind_some]
    obtain scan | thresholds | scoring | output := unread
    · rw [scan, Option.bind_none]
    · rw [thresholds]
      simp
    · rw [scoring]
      simp
    · rw [output]
      simp

/-- Settings are not decoded from a document that is not readable. -/
theorem decode?_eq_none_of_isGivenBy (unreadable : document.isReadable = false)
    (distinct : document.NamesDistinct) (given : choice.IsGivenBy document) :
    Settings.decode? document = none := by
  obtain ⟨scan, thresholds, scoring, output⟩ := given
  cases document with
  | table sections =>
    obtain ⟨⟨name, value⟩, inside, cause⟩ := Toml.exists_unreadable unreadable
    by_cases known : name ∈ ["scan", "thresholds", "scoring", "output"]
    · -- The settings that are given are readable, so that something beside them is not.
      have texts := @Toml.isReadable_of_mem_map _ _ Toml.isReadable_texts
      have truths := @Toml.isReadable_of_mem_map _ Toml.Value.bool fun _ => rfl
      have counters := @Toml.isReadable_of_mem_map _ Toml.counter fun _ => rfl
      have contents := @Toml.isReadable_of_mem_map _ Toml.Value.string fun _ => rfl
      refine decode?_eq_none_of_section ?_
      simp only [List.mem_cons, List.not_mem_nil, or_false] at known
      obtain rfl | rfl | rfl | rfl := known
      · refine .inl (optional_section_eq_none distinct scan ?_ inside cause fun value unread => ?_)
        · exact List.forall_mem_cons.mpr ⟨texts _,
            List.forall_mem_cons.mpr ⟨texts _, List.forall_mem_singleton.mpr (truths _)⟩⟩
        · have none : fields ["extensions", "ignore", "respect_gitignore"] value = none := unread
          rw [ScanSettings.decode?, none]
          rfl
      · refine .inr (.inl (optional_section_eq_none distinct thresholds ?_ inside cause
          fun value unread => ?_))
        · exact List.forall_mem_cons.mpr ⟨counters _, List.forall_mem_singleton.mpr (counters _)⟩
        · have none : fields ["low_max", "medium_max"] value = none := unread
          rw [Thresholds.decode?, none]
          rfl
      · refine .inr (.inr (.inl (optional_section_eq_none distinct scoring ?_ inside cause
          fun value unread => ?_)))
        · exact List.forall_mem_singleton.mpr (counters _)
        · have none : fields ["dependency_weight"] value = none := unread
          rw [decodeSection?, none]
          rfl
      · refine .inr (.inr (.inr (optional_section_eq_none distinct output ?_ inside cause
          fun value unread => ?_)))
        · exact List.forall_mem_singleton.mpr (contents _)
        · have none : fields ["path"] value = none := unread
          rw [decodeSection?, none]
          rfl
    · rw [Settings.decode?, fields_eq_none inside known cause]
      rfl
  | _ =>
    obtain ⟨members, found, _⟩ := scan
    cases found

end SettingsChoice

/-- A document with settings, in whatever order and beside whatever else it holds, gives them to a
run with the defaults of all others when these together can be used. Otherwise their flaw is told,
such as that a threshold does not fit the default of the other one. A number beside the settings
that neither an integer nor a float can hold makes the whole document one that cannot be read. -/
theorem Settings.parse_of_isGivenBy {text : String} {document : Toml.Value}
    {choice : SettingsChoice} (read : Toml.Value.parse text = .ok document)
    (given : choice.IsGivenBy document) :
    (document.isReadable = true →
      (choice.settings.Usable → Settings.parse text = .ok choice.settings) ∧
      (¬ choice.settings.Usable →
        ∃ flaw, choice.settings.flaw? = some flaw ∧ Settings.parse text = .error (.flawed flaw)) ∧
      (∀ lowMax, choice.lowMax = some lowMax → choice.mediumMax = none → 300 ≤ lowMax.val →
        ∃ flaw, Settings.parse text = .error (.flawed flaw)) ∧
      ∀ mediumMax, choice.mediumMax = some mediumMax → choice.lowMax = none →
        mediumMax.val ≤ 100 → ∃ flaw, Settings.parse text = .error (.flawed flaw)) ∧
      (document.isReadable = false → Settings.parse text = .error .unreadable) := by
  have distinct := Toml.namesDistinct_of_parse read
  refine ⟨fun readable => ?_, fun unreadable => ?_⟩
  · have decoded : Settings.decode? document = some choice.settings :=
      SettingsChoice.decode?_of_isGivenBy readable distinct given
    -- Whatever is chosen is read, so that the check of the settings decides.
    have parsed : Settings.parse text = choice.settings.validate.mapError .flawed := by
      rw [Settings.parse, read]
      dsimp only
      rw [decoded]
    have refused : ¬ choice.settings.Usable → ∃ flaw, choice.settings.flaw? = some flaw ∧
        Settings.parse text = .error (.flawed flaw) := by
      intro flawed
      obtain ⟨flaw, found⟩ := Option.ne_none_iff_exists'.mp (mt Settings.flaw?_eq_none.mp flawed)
      exact ⟨flaw, found, by rw [parsed, validate, found]; rfl⟩
    refine ⟨fun usable => ?_, refused, fun lowMax low medium above => ?_,
      fun mediumMax medium low below => ?_⟩
    · rw [parsed, validate, Settings.flaw?_eq_none.mpr usable]
      rfl
    -- A threshold that is given alone has to fit the default of the other one.
    · obtain ⟨flaw, _, ends⟩ := refused fun usable => by
        have ascending := usable.ascending
        simp [SettingsChoice.settings, low, medium] at ascending
        omega
      exact ⟨flaw, ends⟩
    · obtain ⟨flaw, _, ends⟩ := refused fun usable => by
        have ascending := usable.ascending
        simp [SettingsChoice.settings, low, medium] at ascending
        omega
      exact ⟨flaw, ends⟩
  · -- A document that is parsed but not decoded counts as unreadable.
    rw [Settings.parse, read]
    dsimp only
    rw [SettingsChoice.decode?_eq_none_of_isGivenBy unreadable distinct given]

/-- A document with some of the settings, out of order and beside others that are not known. -/
def scatteredSettings : String :=
"version = 2
[thresholds]
other = [1.5, \"x\"]
low_max = 299
[extra.deep]
day = 1979-05-27
[scan]
respect_gitignore = true
extensions = [\"ts\", \"tsx\"]
"

/-- The value of that document. -/
def scatteredDocument : Toml.Value :=
  .table
    [("version", .integer 2),
      ("thresholds", .table
        [("other", .array [.float "1.5", .string "x"]), ("low_max", .integer 299)]),
      ("extra", .table [("deep", .table [("day", .dateTime "1979-05-27")])]),
      ("scan", .table
        [("respect_gitignore", .bool true),
          ("extensions", .array [.string "ts", .string "tsx"])])]

/-- The settings that it gives. -/
def scatteredChoice : SettingsChoice where
  extensions := some ["ts", "tsx"]
  ignored := none
  respectGitignore := some true
  lowMax := some ⟨299, by decide⟩
  mediumMax := none
  dependencyWeight := none
  outputPath := none

/-- What is given there is used, and the lower threshold fits the default of the upper one. -/
theorem Settings.parse_scatteredSettings :
    Toml.Value.parse scatteredSettings = .ok scatteredDocument ∧
      scatteredDocument.isReadable = true ∧ scatteredChoice.IsGivenBy scatteredDocument ∧
      Settings.parse scatteredSettings = .ok
        { scan := { extensions := ["ts", "tsx"], respectGitignore := true }
          thresholds := { lowMax := 299 } } := by
  -- The text is read as the document, whose sections give the settings.
  have read : Toml.Value.parse scatteredSettings = .ok scatteredDocument := by decide +kernel
  have given : scatteredChoice.IsGivenBy scatteredDocument :=
    ⟨⟨_, rfl, by decide⟩, ⟨_, rfl, by decide⟩, ⟨_, rfl, by decide⟩, ⟨_, rfl, by decide⟩⟩
  have usable : scatteredChoice.settings.Usable := ⟨by decide, by decide, by decide⟩
  exact ⟨read, rfl, given, ((Settings.parse_of_isGivenBy read given).1 rfl).1 usable⟩

/-- A document with one of the settings, beside a number that no float can hold. -/
def overflowingSettings : String :=
  "x=-1e309\n[output]\npath=\"p\""

/-- The one setting that it gives. -/
def placedChoice : SettingsChoice where
  extensions := none
  ignored := none
  respectGitignore := none
  lowMax := none
  mediumMax := none
  dependencyWeight := none
  outputPath := some "p"

/-- The number beside the setting, which no setting is about, makes the document unreadable. -/
theorem Settings.parse_overflowingSettings : ∃ document,
    Toml.Value.parse overflowingSettings = .ok document ∧ placedChoice.IsGivenBy document ∧
      placedChoice.settings.Usable ∧
      Settings.parse overflowingSettings = .error .unreadable := by
  let document : Toml.Value :=
    .table [("x", .unreadable "1e309"), ("output", .table [("path", .string "p")])]
  have read : Toml.Value.parse overflowingSettings = .ok document := by decide +kernel
  have given : placedChoice.IsGivenBy document :=
    ⟨⟨_, rfl, by decide⟩, ⟨_, rfl, by decide⟩, ⟨_, rfl, by decide⟩, ⟨_, rfl, by decide⟩⟩
  refine ⟨document, read, given, ⟨by decide, by decide, by decide⟩, ?_⟩
  -- The settings are read before they are looked at.
  rw [parse, read]
  rfl

end Stocktake
