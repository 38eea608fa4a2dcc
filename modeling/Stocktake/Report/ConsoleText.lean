import Stocktake.Report.Console

/-! The text of a console report, and what can be read from it again: the block that it has between
two headers, and the text without its paint. -/

namespace Stocktake

/-- The summary that a JSON text holds. -/
def Summary.parse? (text : String) : Option Summary := do
  ofJson? (← Json.Value.parse? text)

/-- What stands in a text before the first place at which it goes on with a word. -/
def beforeWord? (word : List Char) : List Char → Option (List Char)
  | [] => if word.isEmpty then some [] else none
  | c :: text =>
    if word.isPrefixOf (c :: text) then some []
    else (beforeWord? word text).map (c :: ·)

/-- What stands between the word that begins a text and the first place of another one behind it. -/
def between? (opening closing text : String) : Option String := do
  let behind ← opening.toList.isPrefixOf? text.toList
  let block ← beforeWord? closing.toList behind
  return String.ofList block

namespace Style

/-- The text of a console report. -/
def text (style : Style) (summary : Summary) (order : List String) : String :=
  String.join (style.report summary order)

/-- The block of a console report between its first header and its second one. -/
def block? (style : Style) (text : String) : Option String :=
  between? (style.header "Component Analysis Summary:")
    (style.header "Migration Complexity Analysis:") text

/-- The title of a header and the line under it. -/
def titleLines (style : Style) (title : String) : List String :=
  [style.paint "1;36" title, style.paint "2" (String.ofList (List.replicate title.length '='))]

/-- The line of the files that failed, where the summary has one. -/
def failureLines (style : Style) (summary : Summary) : List String :=
  if style.format = .json ∨ summary.filesFailed = 0 then []
  else ["             " ++ style.paint "31" (summary.filesFailed.repr ++ " could not be read")]

/-- The lines of a console report that are painted where colors are wanted. -/
def accents (style : Style) (summary : Summary) : List String :=
  style.titleLines "Component Analysis Summary:" ++ style.failureLines summary ++
    style.titleLines "Migration Complexity Analysis:" ++
    style.titleLines "Suggested Migration Order:"

end Style

/-- A text without its escape sequences, each of which ends with the next letter m. It may begin
inside such a sequence. -/
def withoutEscapes (inside : Bool) : List Char → List Char
  | [] => []
  | c :: text =>
    if inside then withoutEscapes (c != 'm') text
    else if c == '\x1b' then withoutEscapes true text
    else c :: withoutEscapes false text

/-- A line is painted when it begins with an escape sequence, behind any blanks. -/
def isPainted (line : List Char) : Bool :=
  (line.dropWhile (· == ' ')).head? == some '\x1b'

/-- The painted lines of a text. -/
def paintedLines (text : String) : List String :=
  ((text.toList.splitOn '\n').filter isPainted).map String.ofList

/-- Lines of which the painted ones, up to a number of them, have lost their escape sequences. -/
def unpaintLines : Nat → List (List Char) → List (List Char)
  | 0, lines => lines
  | _, [] => []
  | count + 1, line :: lines =>
    if isPainted line then withoutEscapes false line :: unpaintLines count lines
    else line :: unpaintLines (count + 1) lines

/-- A text of which the painted lines, up to a number of them, have lost their escape sequences. -/
def unpainted (count : Nat) (text : String) : String :=
  String.ofList (['\n'].intercalate (unpaintLines count (text.toList.splitOn '\n')))

end Stocktake
