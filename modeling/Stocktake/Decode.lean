import Stocktake.Ranking

/-! Decoding reads typed values out of documents, in whichever format these are written. -/

namespace Stocktake

/-- What a value of a document looks like to a decoder. -/
inductive Shape (α : Type)
  | natural (n : Nat)
  | bool (truth : Bool)
  | text (content : String)
  | items (items : List α)
  | fields (members : List (String × α))
  /-- A value that no decoder accepts, such as a negative number. -/
  | other

/-- A document format shows the shape of its values. -/
class Document (α : Type) where
  shape : α → Shape α
  /-- A value that is not readable is refused even where nothing is read from it. -/
  isReadable : α → Bool
  /-- A structure written as a list may have more items than fields. -/
  ignoresExtraItems : Bool

namespace Decode

variable {α β : Type} [Document α]

/-- Reads a counter, which has 64 bits. -/
def natural (value : α) : Option Nat :=
  match Document.shape value with
  | .natural n => if n < wordBound then some n else none
  | _ => none

/-- Reads a truth value. -/
def bool (value : α) : Option Bool :=
  match Document.shape value with
  | .bool truth => some truth
  | _ => none

/-- Reads a text. -/
def text (value : α) : Option String :=
  match Document.shape value with
  | .text content => some content
  | _ => none

/-- Reads a list whose items are all read alike. -/
def list (item : α → Option β) (value : α) : Option (List β) :=
  match Document.shape value with
  | .items items => items.mapM item
  | _ => none

/-- Reads a map; a repeated name keeps its first place and its last value. -/
def map (item : α → Option β) (value : α) : Option (OrderedMap String β) :=
  match Document.shape value with
  | .fields members => do
    let entries ← members.mapM fun member => return (member.1, ← item member.2)
    return .ofList entries
  | _ => none

/-- The values of a structure's fields in the order of their names, none for a field left out. -/
def fields (names : List String) (value : α) : Option (List (Option α)) :=
  match Document.shape value with
  | .fields members =>
    -- Readable members of other names are passed over, but a field may come only once.
    let passes := members.all fun member =>
      names.contains member.1 || Document.isReadable member.2
    let once := names.all fun name => (members.filter (·.1 == name)).length ≤ 1
    if passes && once then
      some (names.map fun name => (members.find? (·.1 == name)).map Prod.snd)
    else none
  | .items items =>
    if items.length ≤ names.length || Document.ignoresExtraItems α then
      some ((List.range names.length).map fun index => items[index]?)
    else none
  | _ => none

/-- Reads a field that has to be there. -/
def required (read : α → Option β) (field : Option α) : Option β :=
  field.bind read

/-- Reads a field that takes a default value when it is left out. -/
def optional (read : α → Option β) (standard : β) : Option α → Option β
  | some value => read value
  | none => some standard

end Decode

end Stocktake
