/-! JSON values and their pretty text, two spaces to a level. -/

namespace Stocktake.Json

/-- The text of a string; none when an escape in it names half of a surrogate pair. -/
abbrev Text := Option String

/-- A JSON value keeps the order and the repetitions of an object's members. -/
inductive Value
  | null
  | bool (truth : Bool)
  /-- A number written with decimal digits alone. -/
  | natural (n : Nat)
  /-- Any other number, as it is written. -/
  | numeral (literal : String)
  | string (text : Text)
  | array (items : List Value)
  | object (members : List (Text × Value))

namespace Value

/-- A string value that holds a text. -/
def text (content : String) : Value :=
  .string (some content)

/-- An object whose names are texts. -/
def record (members : List (String × Value)) : Value :=
  .object (members.map fun member => (some member.1, member.2))

/-- The text of a string value. -/
def text? : Value → Option String
  | .string content => content
  | _ => none

/-- The number of a value written with digits alone. -/
def natural? : Value → Option Nat
  | .natural n => some n
  | _ => none

/-- The truth value of a value. -/
def bool? : Value → Option Bool
  | .bool truth => some truth
  | _ => none

/-- The items of an array. -/
def items? : Value → Option (List Value)
  | .array items => some items
  | _ => none

/-- The value of the first member with a name. -/
def member? (name : String) : Value → Option Value
  | .object members => (members.find? fun member => member.1 == some name).map Prod.snd
  | _ => none

end Value

/-- The spelling of one character inside a string. -/
def escape (c : Char) : List Char :=
  if c == '\x22' then ['\\', '\x22']
  else if c == '\\' then ['\\', '\\']
  else if c.toNat < 0x20 then
    -- The short escapes come first, and the other control characters are numbered.
    if c == '\x08' then ['\\', 'b']
    else if c == '\t' then ['\\', 't']
    else if c == '\n' then ['\\', 'n']
    else if c == '\x0c' then ['\\', 'f']
    else if c == '\r' then ['\\', 'r']
    else ['\\', 'u', '0', '0', Nat.digitChar (c.toNat / 16), Nat.digitChar (c.toNat % 16)]
  else [c]

/-- A string between its quotes; one that holds no text is spelled as the half of a pair alone. -/
def quoted : Text → List Char
  | some content => '\x22' :: content.toList.flatMap escape ++ ['\x22']
  | none => "\"\\ud800\"".toList

/-- A line end and the indentation of a level, in front of what stands behind them. -/
def lineBreak (level : Nat) (behind : List Char) : List Char :=
  '\n' :: List.replicate (2 * level) ' ' ++ behind

mutual

/-- The pretty text of a value whose lines stand at a level, in front of what stands behind it. -/
def Value.pretty (level : Nat) (behind : List Char) : Value → List Char
  | .null => "null".toList ++ behind
  | .bool true => "true".toList ++ behind
  | .bool false => "false".toList ++ behind
  | .natural n => Nat.toDigits 10 n ++ behind
  | .numeral literal => literal.toList ++ behind
  | .string text => quoted text ++ behind
  | .array [] => '[' :: ']' :: behind
  | .array (item :: items) =>
    let closing := lineBreak level (']' :: behind)
    '[' :: lineBreak (level + 1)
      (item.pretty (level + 1) (prettyItems (level + 1) closing items))
  | .object [] => '\x7b' :: '\x7d' :: behind
  | .object ((name, value) :: members) =>
    let closing := lineBreak level ('\x7d' :: behind)
    '\x7b' :: lineBreak (level + 1)
      (quoted name ++ ':' :: ' ' ::
        value.pretty (level + 1) (prettyMembers (level + 1) closing members))

/-- The pretty text of the items behind the first one, each on a line of its own. -/
def prettyItems (level : Nat) (behind : List Char) : List Value → List Char
  | [] => behind
  | item :: items =>
    ',' :: lineBreak level (item.pretty level (prettyItems level behind items))

/-- The pretty text of the members behind the first one, each on a line of its own. -/
def prettyMembers (level : Nat) (behind : List Char) : List (Text × Value) → List Char
  | [] => behind
  | (name, value) :: members =>
    ',' :: lineBreak level
      (quoted name ++ ':' :: ' ' :: value.pretty level (prettyMembers level behind members))

end

/-- The pretty text of a value. -/
def Value.render (value : Value) : String :=
  String.ofList (value.pretty 0 [])

end Stocktake.Json
