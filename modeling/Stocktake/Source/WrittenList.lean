import Stocktake.Source.Injection

/-! Injection lists as they are written down: names between brackets, with quotes and white space
around them, and perhaps a constructor at the end, or no names at all. -/

namespace Stocktake

/-- A character that is neither white space nor a quote. -/
def isSolid (c : Char) : Bool :=
  !isBlank c && !isEntryQuote c

/-- A name that a list can hold. -/
structure ListName where
  text : List Char
  filled : text ≠ [] := by decide
  oneEntry : ',' ∉ text := by decide
  unclosed : ']' ∉ text := by decide
  /-- Neither white space nor quotes belong to a name at its ends. -/
  solidFront : text.head?.all isSolid = true := by decide
  solidBack : text.getLast?.all isSolid = true := by decide
  /-- The word for a constructor is no name, unless it goes on as a longer one. -/
  ordinary : text ≠ constructorWord ∧ isInlineConstructor text = false := by decide

/-- A name as it is written into a list. -/
structure WrittenName where
  name : ListName
  /-- The quote on both sides of the name, which may also be bare. -/
  quote? : Option { c : Char // isEntryQuote c = true } := none
  outside : Padding := {}
  inside : Padding := {}

/-- What is written on either side of a name. -/
def WrittenName.quotes (written : WrittenName) : List Char :=
  written.quote?.toList.map Subtype.val

/-- The entry that is written for a name. -/
def WrittenName.render (written : WrittenName) : List Char :=
  written.outside.around
    (written.quotes ++ (written.inside.around written.name.text ++ written.quotes))

/-- A constructor, with a name or without, as it is written into the last entry of a list. -/
structure WrittenConstructor where
  before : List Char := []
  blank : allBlank before = true := by decide
  name? : Option { name : List Char // ',' ∉ name ∧ ']' ∉ name } := none
  /-- The parameters and all that comes behind them. -/
  rest : List Char
  unclosed : ']' ∉ rest := by decide

/-- What is written behind the word for a constructor, up to its parameters. -/
def WrittenConstructor.named (written : WrittenConstructor) : List Char :=
  match written.name? with
  | some name => ' ' :: name.val
  | none => []

/-- The text that is written for a constructor, which may hold separators of its own. -/
def WrittenConstructor.render (written : WrittenConstructor) : List Char :=
  written.before ++ (constructorWord ++ (written.named ++ '(' :: written.rest))

/-- An injection list as it is written. -/
structure WrittenList where
  names : List WrittenName
  filled : names ≠ [] := by simp
  constructor? : Option WrittenConstructor := none

/-- The names of a list, in the order in which they are written. -/
def WrittenList.texts (list : WrittenList) : List (List Char) :=
  list.names.map (·.name.text)

/-- What is written between the brackets of a list. -/
def WrittenList.body (list : WrittenList) : List Char :=
  [','].intercalate
    (list.names.map WrittenName.render ++ list.constructor?.toList.map WrittenConstructor.render)

/-- The text that is written for a list. -/
def WrittenList.render (list : WrittenList) : List Char :=
  '[' :: (list.body ++ [']'])

/-- The text of a list of names as it is commonly written, each between single quotes. -/
def quotedList (names : List (List Char)) : List Char :=
  '[' :: ([',', ' '].intercalate (names.map fun name => '\x27' :: (name ++ ['\x27'])) ++ [']'])

/-- A line that gives a construct an injection list without names. -/
def emptyListLine (construct slack : List Char) : List Char :=
  construct ++ (".$inject = [".toList ++ (slack ++ [']']))

end Stocktake
