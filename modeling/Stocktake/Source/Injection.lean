import Stocktake.Text.Alphanumeric
import Stocktake.Text.Blank

/-! Injection lists are bracketed lists at the end of a line that name dependencies. -/

namespace Stocktake

/-- A list closes its line when only white space is left of the text, or of its line. -/
def closesLine (text : List Char) : Bool :=
  (text.dropWhile isBlank).isEmpty || (text.takeWhile isBlank).contains '\n'

/-- The last list that closes its line, given the last one so far and what an open one holds. -/
def lastListFrom (found : Option (List Char)) :
    Option (List Char) → List Char → Option (List Char)
  | _, [] => found
  | none, c :: text => lastListFrom found (if c == '[' then some [] else none) text
  | some body, c :: text =>
    if c != ']' then lastListFrom found (some (c :: body)) text
    -- Brackets with nothing between them are no list.
    else if !body.isEmpty && closesLine text then lastListFrom (some body.reverse) none text
    else lastListFrom found none text

/-- The text between the brackets of the last injection list of a text. -/
def lastInjectionList? (text : List Char) : Option (List Char) :=
  lastListFrom none none text

/-- The word that introduces the constructor in the last entry of an injection list. -/
def constructorWord : List Char :=
  "function".toList

/-- A dependency may be written between single quotes, double quotes or backticks. -/
def isEntryQuote (c : Char) : Bool :=
  c == '\x27' || c == '\x22' || c == '\x60'

/-- The name that a list entry stands for, without the white space and the quotes around it. -/
def entryName (entry : List Char) : List Char :=
  trim (stripEnds isEntryQuote (trim entry))

/-- A character that may go on a name: alphanumeric, an underscore or a dollar sign. -/
def continuesName (c : Char) : Bool :=
  isAlphanumeric c || c == '_' || c == '$'

/-- An entry is an inline constructor when its word for one does not go on as a longer name. -/
def isInlineConstructor (name : List Char) : Bool :=
  match constructorWord.isPrefixOf? name with
  | some (c :: _) => !continuesName c
  | _ => false

/-- The names in the text between brackets, each once and none from an inline constructor on. -/
def namesInList (body : List Char) : List (List Char) :=
  (((body.splitOn ',').map entryName).filter fun name => !name.isEmpty && name != constructorWord)
    |>.takeWhile (!isInlineConstructor ·)
    |>.eraseDups

/-- The names in the last injection list of a text, none when it has no such list. -/
def injectedNames (text : List Char) : List (List Char) :=
  match lastInjectionList? text with
  | some body => namesInList body
  | none => []

/-- What a source text depends on. -/
def dependenciesOf (content : String) : List String :=
  (injectedNames content.toList).map String.ofList

end Stocktake
