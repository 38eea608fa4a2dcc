import Stocktake.Json.Token

/-! Reading a JSON text: its tokens drive a stack of the containers that are still open. -/

namespace Stocktake.Json

/-- An open container with what is finished of it, the last part first. -/
inductive Frame
  | array (items : List Value)
  /-- An object whose next member has its name already. -/
  | object (members : List (Text × Value)) (name : Text)

/-- What the reader expects next, inside the containers that are open around it. -/
inductive Reading
  /-- A value has to come. -/
  | value (stack : List Frame)
  /-- An array was opened: its first item comes, or its end. -/
  | firstItem (stack : List Frame)
  /-- An object was opened: the name of its first member comes, or its end. -/
  | firstName (stack : List Frame)
  /-- The name of a further member has to come. -/
  | name (stack : List Frame) (members : List (Text × Value))
  /-- The colon behind a name has to come. -/
  | colon (stack : List Frame) (members : List (Text × Value)) (name : Text)
  /-- A value is complete: a comma comes, or the end of what surrounds it. -/
  | behind (stack : List Frame) (value : Value)

/-- Begins a value with its first token. -/
def beginValue (stack : List Frame) : Token → Option Reading
  | .openArray => some (.firstItem stack)
  | .openObject => some (.firstName stack)
  | .null => some (.behind stack .null)
  | .bool truth => some (.behind stack (.bool truth))
  | .natural n => some (.behind stack (.natural n))
  | .numeral literal => some (.behind stack (.numeral literal))
  | .string text => some (.behind stack (.string text))
  | _ => none

/-- Goes on behind a complete value. -/
def afterValue (stack : List Frame) (value : Value) (token : Token) : Option Reading :=
  match stack, token with
  | .array items :: outer, .comma => some (.value (.array (value :: items) :: outer))
  | .array items :: outer, .closeArray => some (.behind outer (.array (value :: items).reverse))
  | .object members name :: outer, .comma => some (.name outer ((name, value) :: members))
  | .object members name :: outer, .closeObject =>
    some (.behind outer (.object ((name, value) :: members).reverse))
  | _, _ => none

/-- Takes one token; none when it cannot stand where it does. -/
def Reading.step (reading : Reading) (token : Token) : Option Reading :=
  match reading, token with
  | .value stack, _ => beginValue stack token
  | .firstItem stack, .closeArray => some (.behind stack (.array []))
  | .firstItem stack, _ => beginValue (.array [] :: stack) token
  | .firstName stack, .closeObject => some (.behind stack (.object []))
  | .firstName stack, .string label => some (.colon stack [] label)
  | .name stack members, .string label => some (.colon stack members label)
  | .colon stack members label, .colon => some (.value (.object members label :: stack))
  | .behind stack complete, _ => afterValue stack complete token
  | _, _ => none

/-- The value that was read, once it is complete and no container is open. -/
def Reading.result? : Reading → Option Value
  | .behind [] complete => some complete
  | _ => none

/-- The value that a sequence of tokens spells. -/
def Value.ofTokens? (tokens : List Token) : Option Value := do
  (← tokens.foldlM Reading.step (.value [])).result?

/-- The value of a JSON text. -/
def Value.parse? (text : String) : Option Value := do
  Value.ofTokens? (← tokens? text.toList)

end Stocktake.Json
