import Stocktake.Proofs.Toml.Outline
import Stocktake.Toml.Reader

/-! No table of a document that was read has a name twice. -/

namespace Stocktake.Toml

mutual

/-- No name stands twice in a value that is a table, or in a table inside of it. -/
def Value.NamesDistinct : Value → Prop
  | .array items => ItemsDistinct items
  | .table members => (members.map Prod.fst).Nodup ∧ MembersDistinct members
  | _ => True

/-- In all items names are distinct. -/
def ItemsDistinct : List Value → Prop
  | [] => True
  | item :: items => item.NamesDistinct ∧ ItemsDistinct items

/-- In the values of all members names are distinct. -/
def MembersDistinct : List (String × Value) → Prop
  | [] => True
  | (_, value) :: members => value.NamesDistinct ∧ MembersDistinct members

end

/-- Names are distinct in an array when they are in its items. -/
theorem namesDistinct_array {items : List Value} :
    (Value.array items).NamesDistinct ↔ ∀ item ∈ items, item.NamesDistinct := by
  -- An array has no names of its own.
  rw [Value.NamesDistinct]
  induction items with
  | nil => simp [ItemsDistinct]
  | cons item items ih => simp [ItemsDistinct, ih]

/-- Names are distinct in a table when its own are, and those in the values of its members. -/
theorem namesDistinct_table {members : List (String × Value)} :
    (Value.table members).NamesDistinct ↔
      (members.map Prod.fst).Nodup ∧ ∀ member ∈ members, member.2.NamesDistinct := by
  -- The condition on the members is one for each of them.
  have inner : MembersDistinct members ↔ ∀ member ∈ members, member.2.NamesDistinct := by
    induction members with
    | nil => simp [MembersDistinct]
    | cons member members ih => rw [MembersDistinct, ih, List.forall_mem_cons]
  rw [Value.NamesDistinct, inner]

/-- There is no name in a scalar. -/
theorem Value.IsScalar.namesDistinct {value : Value} (scalar : value.IsScalar) :
    value.NamesDistinct := by
  -- Only arrays and tables have values with names in them.
  cases value with
  | array items => cases scalar
  | table members => cases scalar
  | _ => trivial

/-- The complete members of a table have its names. -/
theorem completeMembers_eq_map (members : Members) :
    completeMembers members = members.map fun member => (member.1, member.2.complete) := by
  -- Completing changes the values under the names only.
  induction members with
  | nil => rfl
  | cons member members ih => rw [completeMembers, ih, List.map_cons]

/-- The complete tables of an array stand in order. -/
theorem completeTables_eq (behind : List Value) (tables : List Members) :
    completeTables behind tables = (tables.map tableOf).reverse ++ behind := by
  -- Each table is put before those that stand behind it.
  induction tables generalizing behind with
  | nil => rfl
  | cons members tables ih =>
    rw [completeTables, ih, List.map_cons, List.reverse_cons, List.append_assoc]
    rfl

/-- Names are distinct in a table when its own are, and those in what they stand for. -/
theorem namesDistinct_tableOf {members : Members} :
    (tableOf members).NamesDistinct ↔
      (members.map Prod.fst).Nodup ∧ ∀ member ∈ members, member.2.complete.NamesDistinct := by
  -- A table is complete with the names that it has.
  rw [tableOf, namesDistinct_table, completeMembers_eq_map, List.forall_mem_map, List.map_map]
  rfl

/-- There is no name in a table without members. -/
theorem namesDistinct_bare : (tableOf []).NamesDistinct :=
  -- There is nothing to repeat.
  namesDistinct_tableOf.mpr ⟨List.nodup_nil, nofun⟩

/-- Names are distinct in an array of tables when they are in each of these. -/
theorem namesDistinct_tables {earlier : List Members} {last : Members} :
    (Node.tables earlier last).complete.NamesDistinct ↔
      (tableOf last).NamesDistinct ∧ ∀ members ∈ earlier, (tableOf members).NamesDistinct := by
  -- The last table is kept apart from those before it, and completed behind them.
  rw [Node.complete, completeTables_eq, namesDistinct_array, List.forall_mem_append,
    List.forall_mem_singleton, and_comm]
  simp [tableOf]

variable {name : String} {members changed : Members}

/-- A change either finds its name, and changes what this stands for, or adds the name. -/
theorem changeMember_eq_some {change : Option Node → Option Node}
    (done : changeMember name change members = some changed) :
    (∃ front node behind new, members = front ++ (name, node) :: behind ∧
        change (some node) = some new ∧ changed = front ++ (name, new) :: behind) ∨
      name ∉ members.map Prod.fst ∧ ∃ new, change none = some new ∧
        changed = members ++ [(name, new)] := by
  -- The first member is the one to change, or is passed on the way to it.
  induction members generalizing changed with
  | nil =>
    obtain ⟨new, made, rfl⟩ := Option.map_eq_some_iff.mp done
    exact .inr ⟨List.not_mem_nil, new, made, rfl⟩
  | cons member members ih =>
    obtain ⟨label, node⟩ := member
    rw [changeMember] at done
    split at done
    · rename_i same
      subst same
      obtain ⟨new, made, rfl⟩ := Option.map_eq_some_iff.mp done
      exact .inl ⟨[], node, members, new, rfl, made, rfl⟩
    · rename_i other
      obtain ⟨rest, later, rfl⟩ := Option.map_eq_some_iff.mp done
      obtain ⟨front, found, behind, new, rfl, made, rfl⟩ | ⟨absent, new, made, rfl⟩ := ih later
      · exact .inl ⟨(label, node) :: front, found, behind, new, rfl, made, rfl⟩
      · refine .inr ⟨?_, new, made, rfl⟩
        simpa [Ne.symm other] using absent

/-- A change keeps names distinct when it does so in what a name stands for. -/
theorem namesDistinct_of_changeMember {change : Option Node → Option Node}
    (done : changeMember name change members = some changed)
    (distinct : (tableOf members).NamesDistinct)
    (keeps : ∀ old new, (∀ node ∈ old, node.complete.NamesDistinct) → change old = some new →
      new.complete.NamesDistinct) : (tableOf changed).NamesDistinct := by
  rw [namesDistinct_tableOf] at distinct ⊢
  obtain ⟨once, inner⟩ := distinct
  obtain ⟨front, node, behind, new, rfl, made, rfl⟩ | ⟨absent, new, made, rfl⟩ :=
    changeMember_eq_some done
  · -- The names are as before.
    obtain ⟨before, found, after⟩ : (∀ member ∈ front, member.2.complete.NamesDistinct) ∧
        node.complete.NamesDistinct ∧ ∀ member ∈ behind, member.2.complete.NamesDistinct := by
      simpa [or_imp, forall_and] using inner
    have fresh := keeps (some node) new (by simpa using found) made
    refine ⟨by simpa using once, ?_⟩
    rw [List.forall_mem_append, List.forall_mem_cons]
    exact ⟨before, fresh, after⟩
  · -- The name is new, and so stands once.
    have fresh := keeps none new (by simp) made
    constructor
    · rw [List.map_append, List.map_singleton]
      refine List.nodup_append.mpr ⟨once, by simp, fun label before other last same => ?_⟩
      obtain rfl : other = name := List.mem_singleton.mp last
      exact absent (same ▸ before)
    · rw [List.forall_mem_append, List.forall_mem_singleton]
      exact ⟨inner, fresh⟩

/-- A change of a table keeps names distinct in all tables around it. -/
theorem namesDistinct_of_changeTable {viaDots : Bool}
    {change : Origin → Members → Option Members} {path : List String} {origin : Origin}
    (done : changeTable viaDots change path origin members = some changed)
    (distinct : (tableOf members).NamesDistinct)
    (keeps : ∀ origin inner new, (tableOf inner).NamesDistinct → change origin inner = some new →
      (tableOf new).NamesDistinct) : (tableOf changed).NamesDistinct := by
  -- Each step of the path changes one member, which is a table of its own.
  induction path generalizing origin members changed with
  | nil => exact keeps origin members changed distinct done
  | cons step path ih =>
    rw [changeTable] at done
    refine namesDistinct_of_changeMember done distinct fun old new before made => ?_
    cases old with
    | none =>
      obtain ⟨inner, deeper, rfl⟩ := Option.map_eq_some_iff.mp made
      exact ih deeper namesDistinct_bare
    | some node =>
      have before := before node rfl
      cases node with
      | value value => cases made
      | table kind inner =>
        dsimp only at made
        split at made
        · cases made
        · obtain ⟨other, deeper, rfl⟩ := Option.map_eq_some_iff.mp made
          exact ih deeper before
      | tables earlier last =>
        obtain ⟨other, deeper, rfl⟩ := Option.map_eq_some_iff.mp made
        obtain ⟨newest, others⟩ := namesDistinct_tables.mp before
        exact namesDistinct_tables.mpr ⟨ih deeper newest, others⟩

/-- An assignment keeps names distinct. -/
theorem namesDistinct_of_assign {target : Target} {value : Value}
    (done : assign target value members = some changed) (plain : value.NamesDistinct)
    (distinct : (tableOf members).NamesDistinct) : (tableOf changed).NamesDistinct := by
  -- Only the table that the target is in changes, and gets a member with a new name.
  refine namesDistinct_of_changeTable done distinct fun origin inner new before made => ?_
  rw [assignMember] at made
  split at made
  · cases made
  · refine namesDistinct_of_changeMember made before fun old node _ assigned => ?_
    cases old with
    | none => exact Option.some.inj assigned ▸ plain
    | some taken => cases assigned

/-- Names are distinct in what stands under a name of a table. -/
private theorem namesDistinct_of_lookup {node : Node} (found : members.lookup name = some node)
    (distinct : (tableOf members).NamesDistinct) : node.complete.NamesDistinct := by
  -- What is found is one of the members.
  obtain ⟨front, behind, rfl, _⟩ := List.lookup_eq_some_iff.mp found
  exact (namesDistinct_tableOf.mp distinct).2 (name, node) (by simp)

/-- What the header of a table finds has distinct names. -/
theorem namesDistinct_of_impliedMembers? {path : List String} {inner : Members}
    (found : impliedMembers? name path members = some inner)
    (distinct : (tableOf members).NamesDistinct) : (tableOf inner).NamesDistinct := by
  -- A path leads through what names stand for; where it ends early, nothing is found.
  induction path generalizing members with
  | nil =>
    rw [impliedMembers?] at found
    split at found
    · cases found
      exact namesDistinct_bare
    · rename_i there
      cases found
      exact namesDistinct_of_lookup there distinct
    · cases found
  | cons step path ih =>
    rw [impliedMembers?] at found
    split at found
    · cases found
      exact namesDistinct_bare
    · rename_i there
      exact ih found (namesDistinct_of_lookup there distinct)
    · rename_i there
      exact ih found (namesDistinct_tables.mp (namesDistinct_of_lookup there distinct)).1
    · cases found

/-- One more table of an array keeps names distinct. -/
theorem namesDistinct_of_extendTables {added : Members}
    (done : extendTables name added members = some changed)
    (distinct : (tableOf members).NamesDistinct) (plain : (tableOf added).NamesDistinct) :
    (tableOf changed).NamesDistinct := by
  -- The table is the first under its name, or comes behind others of the same array.
  refine namesDistinct_of_changeMember done distinct fun old node before made => ?_
  cases old with
  | none =>
    cases made
    exact namesDistinct_tables.mpr ⟨plain, nofun⟩
  | some taken =>
    cases taken with
    | tables earlier last =>
      cases made
      obtain ⟨newest, others⟩ := namesDistinct_tables.mp (before _ rfl)
      exact namesDistinct_tables.mpr ⟨plain, List.forall_mem_cons.mpr ⟨newest, others⟩⟩
    | _ => cases made

mutual

/-- Names are distinct in a value that is read from what is written. -/
theorem namesDistinct_of_value : ∀ {written : Written} {value : Value},
    written.HoldsScalars → written.value = .ok value → value.NamesDistinct
  -- Arrays and tables are read part by part, and a table refuses a name that it has.
  | .scalar (some found), value, scalar, read => by
    cases read
    exact (scalar found rfl).namesDistinct
  | .scalar none, value, _, read => by cases read
  | .array _, _, holds, read => namesDistinct_of_itemValues holds (List.forall_mem_nil _) read
  | .table _, _, holds, read => namesDistinct_of_assignedValue holds namesDistinct_bare read

/-- Names are distinct in an array that is read from what is written. -/
theorem namesDistinct_of_itemValues : ∀ {items : List Written} {done : List Value} {value : Value},
    HoldScalars items → (∀ item ∈ done, item.NamesDistinct) → itemValues done items = .ok value →
      value.NamesDistinct
  -- The items before the rest have been read already.
  | [], done, value, _, before, read => by
    cases read
    simpa [namesDistinct_array] using before
  | item :: items, done, value, holds, before, read => by
    rw [itemValues] at read
    split at read
    · rename_i first this
      have plain := namesDistinct_of_value holds.1 this
      exact namesDistinct_of_itemValues holds.2 (List.forall_mem_cons.mpr ⟨plain, before⟩) read
    · cases read

/-- Names are distinct in a table that is read from what is written. -/
theorem namesDistinct_of_assignedValue : ∀ {assignments : List (Name × Written)}
    {members : Members} {value : Value}, AssignmentsHoldScalars assignments →
      (tableOf members).NamesDistinct → assignedValue members assignments = .ok value →
        value.NamesDistinct
  -- Each assignment is made in the table that those before it have made.
  | [], members, value, _, before, read => by
    cases read
    exact before
  | (name, written) :: assignments, members, value, holds, before, read => by
    rw [assignedValue] at read
    split at read
    · cases read
    · split at read
      · cases read
      · rename_i this
        have plain := namesDistinct_of_value holds.1 this
        split at read
        · rename_i assigned
          have kept := namesDistinct_of_assign assigned plain before
          exact namesDistinct_of_assignedValue holds.2 kept read
        · cases read

end

/-- What is well formed has been found. -/
private theorem wellFormed_eq_ok {α : Type} {found : Option α} {value : α}
    (read : wellFormed found = .ok value) : found = some value := by
  -- What is not found is refused.
  cases found with
  | none => cases read
  | some other => exact congrArg some (Except.ok.inj read)

/-- Two readings succeed together when the first does and the second does with its value. -/
private theorem bind_eq_ok {α β : Type} {first : Except Flaw α} {onward : α → Except Flaw β}
    {result : β} (read : first >>= onward = .ok result) :
    ∃ value, first = .ok value ∧ onward value = .ok result := by
  -- A first failure ends both.
  cases first with
  | error flaw => cases read
  | ok value => exact ⟨value, rfl, read⟩

/-- In all tables of a draft, closed or open, names are distinct. -/
structure Draft.NamesDistinct (draft : Draft) : Prop where
  closed : (tableOf draft.closed).NamesDistinct
  opened : (tableOf draft.opened).NamesDistinct

namespace Draft

variable {draft next : Draft}

/-- Closing a table keeps names distinct. -/
theorem namesDistinct_of_close (distinct : draft.NamesDistinct)
    (done : draft.close = some changed) : (tableOf changed).NamesDistinct := by
  -- The open table takes its place among the closed ones, alone or at the end of an array.
  rw [close] at done
  split at done
  · cases done
    exact distinct.opened
  · refine namesDistinct_of_changeTable done distinct.closed fun _ inner new before made => ?_
    split at made
    · exact namesDistinct_of_extendTables made before distinct.opened
    · refine namesDistinct_of_changeMember made before fun _ node _ put => ?_
      exact Option.some.inj put ▸ distinct.opened

/-- Opening a table keeps names distinct. -/
theorem namesDistinct_of_enter {header : Header} (distinct : (tableOf members).NamesDistinct)
    (done : enter members header = some next) : next.NamesDistinct := by
  -- The root stays as it is, and the open table has the names that it had.
  rw [enter] at done
  split at done
  · cases done
    exact ⟨distinct, namesDistinct_bare⟩
  · obtain ⟨inner, found, rfl⟩ := Option.map_eq_some_iff.mp done
    exact ⟨distinct, namesDistinct_of_impliedMembers? found distinct⟩

/-- No line makes a name stand twice in a table. -/
theorem namesDistinct_of_take {line : Line} (distinct : draft.NamesDistinct)
    (holds : HoldScalars line.values) (done : draft.take line = .ok next) :
    next.NamesDistinct := by
  cases line with
  | header repeats name =>
    -- A header closes one table and opens another.
    obtain ⟨closed, ended, done⟩ := bind_eq_ok done
    obtain ⟨target, _, done⟩ := bind_eq_ok done
    exact namesDistinct_of_enter (namesDistinct_of_close distinct (wellFormed_eq_ok ended))
      (wellFormed_eq_ok done)
  | assignment name written =>
    obtain ⟨target, _, done⟩ := bind_eq_ok done
    obtain ⟨value, read, done⟩ := bind_eq_ok done
    obtain ⟨opened, assigned, done⟩ := bind_eq_ok done
    cases done
    have plain := namesDistinct_of_value holds.1 read
    have kept := namesDistinct_of_assign (wellFormed_eq_ok assigned) plain distinct.opened
    exact ⟨distinct.closed, kept⟩

/-- Whatever lines are read, no name stands twice in a table. -/
theorem namesDistinct_of_foldlM {lines : List Line} (distinct : draft.NamesDistinct)
    (holds : HoldScalars (lines.flatMap Line.values))
    (done : lines.foldlM take draft = .ok next) : next.NamesDistinct := by
  -- Each line keeps names distinct, and the lines come one after the other.
  induction lines generalizing draft with
  | nil =>
    cases done
    exact distinct
  | cons line lines ih =>
    rw [List.flatMap_cons, holdScalars_append] at holds
    rw [List.foldlM_cons] at done
    obtain ⟨between, taken, done⟩ := bind_eq_ok done
    exact ih (namesDistinct_of_take distinct holds.1 taken) holds.2 done

end Draft

/-- No table of a document that was read has a name twice. -/
theorem namesDistinct_of_parse {text : String} {document : Value}
    (read : Value.parse text = .ok document) : document.NamesDistinct := by
  -- The text is cut into tokens, these form lines, and the lines fill a draft.
  obtain ⟨lines, formed, read⟩ := bind_eq_ok read
  obtain ⟨draft, taken, read⟩ := bind_eq_ok read
  obtain ⟨members, closed, read⟩ := bind_eq_ok read
  obtain ⟨tokens, _, formed⟩ := Option.bind_eq_some_iff.mp (wellFormed_eq_ok formed)
  have start : Draft.empty.NamesDistinct := ⟨namesDistinct_bare, namesDistinct_bare⟩
  have distinct : draft.NamesDistinct :=
    Draft.namesDistinct_of_foldlM start (holdScalars_of_linesOf? formed) taken
  cases read
  exact Draft.namesDistinct_of_close distinct (wellFormed_eq_ok closed)

end Stocktake.Toml
