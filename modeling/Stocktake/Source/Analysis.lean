import Stocktake.Source.Declaration
import Stocktake.Source.Injection
import Stocktake.Source.Markers

/-! An analysis holds what one source file declares, with everything the file says about it. -/

namespace Stocktake

/-- A construct is a declared name with what its file shows: dependencies, length and markers. -/
structure Construct where
  name : String
  path : String
  dependencies : List String
  /-- The number of lines of the file. -/
  loc : Nat
  markers : Markers
  deriving DecidableEq, Repr

/-- The number of lines of a text: one more than it has line feeds. -/
def lineCount (text : List Char) : Nat :=
  text.count '\n' + 1

/-- What one source file holds. -/
structure Analysis where
  path : String
  loc : Nat
  dependencies : List String
  markers : Markers
  /-- Every declared construct with its category, category by category. -/
  constructs : List (Category × Construct)
  deriving DecidableEq, Repr

/-- Analyses the content of a file: each declaration becomes a construct with the file's facts. -/
def Analysis.ofContent (path content : String) : Analysis :=
  let loc := lineCount content.toList
  let needed := dependenciesOf content
  let markers := Markers.ofText content.toList
  { path, loc, dependencies := needed, markers
    constructs := (declarationsIn content).map fun declaration =>
      (declaration.category, ⟨declaration.name, path, needed, loc, markers⟩) }

/-- The constructs of one category. -/
def Analysis.constructsOf (analysis : Analysis) (category : Category) : List Construct :=
  (analysis.constructs.filter (·.1 == category)).map Prod.snd

end Stocktake
