import Stocktake.Toml.Outline
import Stocktake.Toml.Tables

/-! Reading a TOML document: its lines are judged in turn, and the first flaw counts. -/

namespace Stocktake.Toml

/-- Why a text is no document. -/
inductive Flaw
  | malformed
  /-- A dotted name has too many parts. -/
  | longName
  deriving DecidableEq, Repr

/-- What is missing is a malformed part of a document. -/
def wellFormed {α : Type} : Option α → Except Flaw α
  | some value => .ok value
  | none => .error .malformed

/-- The target that a written name names; its parts are judged before their number. -/
def targetOf (name : Name) : Except Flaw Target := do
  let parts ← wellFormed (name.mapM id)
  if parts.length > nestingLimit then .error .longName
  else return ⟨parts.dropLast, ← wellFormed parts.getLast?⟩

mutual

/-- The value that is written. -/
def Written.value : Written → Except Flaw Value
  | .scalar value => wellFormed value
  | .array items => itemValues [] items
  | .table assignments => assignedValue [] assignments

/-- The array that items make up behind those judged so far, the last of which comes first. -/
def itemValues (done : List Value) : List Written → Except Flaw Value
  | [] => .ok (.array done.reverse)
  | item :: items =>
    match item.value with
    | .ok value => itemValues (value :: done) items
    | .error flaw => .error flaw

/-- The table that assignments complete. -/
def assignedValue (members : Members) : List (Name × Written) → Except Flaw Value
  | [] => .ok (tableOf members)
  | (name, written) :: assignments =>
    match targetOf name with
    | .error flaw => .error flaw
    | .ok target =>
      match written.value with
      | .error flaw => .error flaw
      | .ok value =>
        match assign target value members with
        | some members => assignedValue members assignments
        | none => .error .malformed

end

/-- Takes one line; a header first closes the table before it. -/
def Draft.take (draft : Draft) : Line → Except Flaw Draft
  | .header repeats name => do
    let closed ← wellFormed draft.close
    let target ← targetOf name
    wellFormed (Draft.enter closed ⟨repeats, target⟩)
  | .assignment name written => do
    let target ← targetOf name
    let value ← written.value
    return { draft with opened := ← wellFormed (assign target value draft.opened) }

/-- The value of a TOML document; a byte order mark at its front does not count. -/
def Value.parse (text : String) : Except Flaw Value := do
  let body := match text.toList with
    | '\ufeff' :: rest => rest
    | whole => whole
  -- What is out of place counts before anything that is malformed.
  let lines ← wellFormed ((tokens? body).bind linesOf?)
  let draft ← lines.foldlM Draft.take .empty
  return tableOf (← wellFormed draft.close)

end Stocktake.Toml
