import Stocktake.Source.Injection
import Stocktake.Text.Pattern

/-! Injection lists are also described by a pattern, the last match of which holds the names. -/

namespace Stocktake

/-- What stands in the brackets of a list, at least one character; it is kept. -/
def contentPattern : Pattern :=
  .group (.seq (.one (· != ']')) (.many (· != ']')))

/-- The end of a list, which is the end of its line, too. -/
def closingPattern : Pattern :=
  .seq (.many isBlank) (.seq (.one (· == ']')) (.seq (.many isBlank) .lineEnd))

/-- A bracketed list at the end of a line. -/
def injectionPattern : Pattern :=
  .seq (.one (· == '[')) (.seq (.many isBlank) (.seq contentPattern closingPattern))

/-- Recognises bracketed lists at the end of a line. -/
def injectionRecogniser : Recogniser (List Char) :=
  injectionPattern.recogniser (by decide)

/-- What the last match of the pattern in a source text names as dependencies. -/
def dependenciesByPattern (content : String) : List String :=
  match (injectionRecogniser.findAll content.toList).getLast? with
  | some body => (namesInList body).map String.ofList
  | none => []

end Stocktake
