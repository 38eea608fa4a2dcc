import Stocktake.Complexity
import Stocktake.Registry

/-! The report of a scan: a summary of counts and everything that was counted. -/

namespace Stocktake

/-- The counts that head a report. -/
structure Summary where
  totals : ByCategory Nat
  templates : TemplateTally
  /-- The complexity of the components; other categories are not classified. -/
  complexity : Metrics
  filesAnalyzed : Nat
  filesFailed : Nat
  deriving DecidableEq, Repr

/-- A report holds the constructs of a scan, what they depend on, and a summary. -/
structure Report where
  summary : Summary
  constructs : ByCategory (List Construct)
  dependencies : DependencyMap
  templates : TemplateTally
  deriving DecidableEq

/-- The report of a registry, with complexity judged by the given thresholds. -/
def Report.ofRegistry (thresholds : Thresholds) (registry : Registry) : Report where
  summary :=
    { totals := registry.constructs.map List.length
      templates := registry.templates
      complexity := thresholds.metrics (registry.collection .component)
      filesAnalyzed := registry.filesAnalyzed
      filesFailed := registry.failures.length }
  constructs := registry.constructs
  dependencies := registry.dependencies
  templates := registry.templates

end Stocktake
