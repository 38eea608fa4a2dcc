import Stocktake.Toml.Value

/-! The tables that the headers and assignments of a document build up. -/

namespace Stocktake.Toml

/-- What first made a table of a document. -/
inductive Origin
  /-- The header of a table below it. -/
  | implied
  /-- A dotted name. -/
  | dotted
  /-- Its own header. -/
  | header
  deriving DecidableEq, Repr

/-- What a name of a document stands for while the document is read. -/
inductive Node
  /-- A value, to which nothing can be added. -/
  | value (value : Value)
  | table (origin : Origin) (members : List (String × Node))
  /-- An array of tables, the last of which takes new names; the ones before are in reverse. -/
  | tables (earlier : List (List (String × Node))) (last : List (String × Node))

/-- The names of a table with what they stand for. -/
abbrev Members := List (String × Node)

/-- Changes what a name stands for, or adds it at the end. -/
def changeMember (name : String) (change : Option Node → Option Node) : Members → Option Members
  | [] => (change none).map fun node => [(name, node)]
  | (label, node) :: rest =>
    if label = name then (change (some node)).map fun node => (label, node) :: rest
    else (changeMember name change rest).map ((label, node) :: ·)

/-- Changes the table at the end of a path, and makes the tables on the way that are missing. -/
def changeTable (viaDots : Bool) (change : Origin → Members → Option Members) :
    List String → Origin → Members → Option Members
  | [], origin, members => change origin members
  | name :: path, _, members =>
    changeMember name (fun
      | none =>
        let origin := if viaDots then .dotted else .implied
        (changeTable viaDots change path origin []).map (.table origin)
      | some (.table origin inner) =>
        -- A dotted name cannot reach into a table that has a header of its own.
        if viaDots && origin == .header then none
        else (changeTable viaDots change path origin inner).map (.table origin)
      | some (.tables earlier last) =>
        (changeTable viaDots change path .header last).map (.tables earlier)
      | some (.value _) => none) members

/-- Assigns a value to a new name; a dotted name adds only to tables that dots have made. -/
def assignMember (viaDots : Bool) (name : String) (value : Value) (origin : Origin)
    (members : Members) : Option Members :=
  if (origin == .dotted) != viaDots then none
  else changeMember name (fun
    | none => some (.value value)
    | some _ => none) members

/-- The place that a dotted name names: the path to its last part, and that part. -/
structure Target where
  path : List String
  name : String
  deriving DecidableEq, Repr

/-- Assigns a value to a target in a table, none when the table has it already. -/
def assign (target : Target) (value : Value) (members : Members) : Option Members :=
  changeTable true (assignMember (!target.path.isEmpty) target.name value) target.path .header
    members

/-- What the header of a table finds there: a table can have only one, but others may imply it. -/
def impliedMembers? (name : String) : List String → Members → Option Members
  | [], members =>
    match members.lookup name with
    | none => some []
    | some (.table .implied inner) => some inner
    | some _ => none
  | step :: path, members =>
    match members.lookup step with
    | none => some []
    | some (.table _ inner) => impliedMembers? name path inner
    | some (.tables _ last) => impliedMembers? name path last
    | some (.value _) => none

/-- Adds a table to an array of tables. -/
def extendTables (name : String) (added : Members) (members : Members) : Option Members :=
  changeMember name (fun
    | none => some (.tables [] added)
    | some (.tables earlier last) => some (.tables (last :: earlier) added)
    | some _ => none) members

/-- A header opens a table, or one more table of an array. -/
structure Header where
  repeats : Bool
  target : Target
  deriving DecidableEq, Repr

/-- A document that is being read: what its closed tables hold, and what the open one does. -/
structure Draft where
  closed : Members
  /-- The header of the open table; the first one has none. -/
  header : Option Header
  opened : Members

namespace Draft

/-- The draft before any line. -/
def empty : Draft :=
  ⟨[], none, []⟩

/-- Closes the open table: what the document holds then, none when it has no place for it. -/
def close (draft : Draft) : Option Members :=
  match draft.header with
  | none => some draft.opened
  | some ⟨repeats, ⟨path, name⟩⟩ =>
    let put := fun members =>
      if repeats then extendTables name draft.opened members
      else changeMember name (fun _ => some (.table .header draft.opened)) members
    changeTable false (fun _ => put) path .header draft.closed

/-- Opens a table behind closed ones; for an array of tables there has to be room at its close. -/
def enter (closed : Members) (header : Header) : Option Draft :=
  if header.repeats then some ⟨closed, header, []⟩
  else
    (impliedMembers? header.target.name header.target.path closed).map fun opened =>
      ⟨closed, header, opened⟩

end Draft

mutual

/-- What a node stands for once the document is complete. -/
def Node.complete : Node → Value
  | .value value => value
  | .table _ members => .table (completeMembers members)
  | .tables earlier last => .array (completeTables [.table (completeMembers last)] earlier)

/-- The names of a table with their complete values. -/
def completeMembers : List (String × Node) → List (String × Value)
  | [] => []
  | (name, node) :: rest => (name, node.complete) :: completeMembers rest

/-- The complete tables of an array, given the ones behind those that are in reverse. -/
def completeTables (behind : List Value) : List (List (String × Node)) → List Value
  | [] => behind
  | members :: rest => completeTables (.table (completeMembers members) :: behind) rest

end

/-- The table with these members. -/
def tableOf (members : Members) : Value :=
  .table (completeMembers members)

end Stocktake.Toml
