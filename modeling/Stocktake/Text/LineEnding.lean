/-! Texts and their line ends: those with a carriage return before each line feed, and those to which
a further line is added. -/

namespace Stocktake

/-- A character that belongs to no line end. -/
def isInLine (c : Char) : Bool :=
  c != '\r' && c != '\n'

/-- What is written for a character. -/
def withReturn (c : Char) : List Char :=
  if c = '\n' then ['\r', '\n'] else [c]

/-- A text with a carriage return before each line feed. -/
def withReturns (text : List Char) : List Char :=
  text.flatMap withReturn

/-- A string with a carriage return before each line feed. -/
def stringWithReturns (text : String) : String :=
  String.ofList (withReturns text.toList)

/-- A text with one more line, which begins at the start of a line. -/
def withLine (text line : List Char) : List Char :=
  if text.getLast?.all (· == '\n') then text ++ line else text ++ '\n' :: line

end Stocktake
