import Stocktake.Report.Artifact
import Stocktake.Text.Utf8

/-! The console report, and the sink it is written to, which may stop taking bytes at any point. -/

namespace Stocktake

/-- The summary is printed as lines of text or as JSON. -/
inductive Format
  | terminal
  | json
  deriving DecidableEq, Repr

/-- How a console report is to look. -/
structure Style where
  format : Format := .terminal
  color : Bool := false
  deriving DecidableEq, Repr

/-- Wraps a text in an escape sequence and the one that resets it. -/
def painted (code : String) (text : String) : String :=
  "\x1b[" ++ code ++ "m" ++ text ++ "\x1b[0m"

namespace Style

/-- Paints a text where colors are wanted. -/
def paint (style : Style) (code : String) (text : String) : String :=
  if style.color then painted code text else text

/-- A title on a line of its own, underlined over its whole length. -/
def header (style : Style) (title : String) : String :=
  let underline := String.ofList (List.replicate title.length '=')
  "\n" ++ style.paint "1;36" title ++ "\n" ++ style.paint "2" underline ++ "\n"

/-- The lines of a summary; the files that failed have a line only when there are any. -/
def summaryLines (style : Style) (summary : Summary) : List String :=
  match style.format with
  | .json => [summary.toJson.render ++ "\n"]
  | .terminal =>
    let totals := summary.totals
    let templates := summary.templates
    [ "Components:  " ++ totals.components.repr ++ "\n",
      "Directives:  " ++ totals.directives.repr ++ "\n",
      "Controllers: " ++ totals.controllers.repr ++ "\n",
      "Services:    " ++ totals.services.repr ++ "\n",
      "Factories:   " ++ totals.factories.repr ++ "\n",
      "Templates:   " ++ templates.total.repr ++
        " (translations: " ++ templates.withTranslations.repr ++
        ", forms: " ++ templates.withForms.repr ++
        ", directives: " ++ templates.withDirectives.repr ++ ")\n",
      "Files:       " ++ summary.filesAnalyzed.repr ++ " analyzed\n" ] ++
    if summary.filesFailed = 0 then []
    else
      ["             " ++
        style.paint "31" (summary.filesFailed.repr ++ " could not be read") ++ "\n"]

/-- The names to migrate, numbered from a given number on. -/
def numbered (first : Nat) : List String → List String
  | [] => []
  | name :: names => (first.repr ++ ". " ++ name ++ "\n") :: numbered (first + 1) names

/-- The parts of a console report in the order in which they are written. -/
def report (style : Style) (summary : Summary) (order : List String) : List String :=
  style.header "Component Analysis Summary:" :: style.summaryLines summary ++
  [ style.header "Migration Complexity Analysis:",
    "High Complexity Components: " ++ summary.complexity.high.repr ++ "\n",
    "Medium Complexity Components: " ++ summary.complexity.medium.repr ++ "\n",
    "Low Complexity Components: " ++ summary.complexity.low.repr ++ "\n",
    style.header "Suggested Migration Order:" ] ++
  numbered 1 order

end Style

/-- A sink takes bytes until it has no room left. -/
structure Sink where
  /-- The number of bytes it takes in all; none when there is no limit. -/
  capacity : Option Nat
  received : Bytes
  deriving DecidableEq, Repr

namespace Sink

/-- A sink that has received nothing. -/
def fresh (capacity : Option Nat) : Sink :=
  ⟨capacity, []⟩

/-- Writes a text as far as there is room, and tells whether all of it went in. -/
def write (sink : Sink) (text : String) : Sink × Bool :=
  let bytes := utf8Encode text.toList
  match sink.capacity with
  | none => ({ sink with received := sink.received ++ bytes }, true)
  | some capacity =>
    let room := capacity - sink.received.length
    ({ sink with received := sink.received ++ bytes.take room }, bytes.length ≤ room)

/-- Writes texts in turn until one of them does not go in whole. -/
def writeAll (sink : Sink) : List String → Sink × Bool
  | [] => (sink, true)
  | text :: texts =>
    match sink.write text with
    | (filled, true) => filled.writeAll texts
    -- The texts behind one that has failed are not tried.
    | (filled, false) => (filled, false)

end Sink

end Stocktake
