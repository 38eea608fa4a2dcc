import Stocktake.Decode
import Stocktake.Json.Reader
import Stocktake.Report.Basic

/-! The artifact is the JSON text of a report; it can be read back into the report. -/

namespace Stocktake

/-- Half of a surrogate pair stands for no text, so a string that holds one is no text. -/
def jsonShape : Json.Value → Shape Json.Value
  | .natural n => .natural n
  | .bool truth => .bool truth
  | .string (some content) => .text content
  | .array items => .items items
  | .object members =>
    -- Every name has to be a text, also the name of a member that is passed over.
    match members.mapM fun member => member.1.map fun name => (name, member.2) with
    | some named => .fields named
    | none => .other
  | _ => .other

/-- A structure written as a JSON array has at most as many items as fields. -/
instance : Document Json.Value where
  shape := jsonShape
  isReadable _ := true
  ignoresExtraItems := false

namespace TemplateTally

/-- The members of the counts, in the order in which they are written. -/
def fieldNames : List String :=
  ["total", "withTranslations", "withForms", "withDirectives"]

/-- Writes the counts as an object. -/
def toJson (tally : TemplateTally) : Json.Value :=
  .record (fieldNames.zip
    [.natural tally.total, .natural tally.withTranslations, .natural tally.withForms,
      .natural tally.withDirectives])

/-- Reads the counts. -/
def ofJson? (value : Json.Value) : Option TemplateTally := do
  match ← Decode.fields fieldNames value with
  | [total, withTranslations, withForms, withDirectives] =>
    return {
      total := ← Decode.required Decode.natural total
      withTranslations := ← Decode.required Decode.natural withTranslations
      withForms := ← Decode.required Decode.natural withForms
      withDirectives := ← Decode.required Decode.natural withDirectives }
  | _ => none

end TemplateTally

namespace Metrics

/-- The members of the counts by level, in the order in which they are written. -/
def fieldNames : List String :=
  ["highComplexity", "mediumComplexity", "lowComplexity"]

/-- Writes the counts as an object. -/
def toJson (metrics : Metrics) : Json.Value :=
  .record (fieldNames.zip
    [.natural metrics.high, .natural metrics.medium, .natural metrics.low])

/-- Reads the counts. -/
def ofJson? (value : Json.Value) : Option Metrics := do
  match ← Decode.fields fieldNames value with
  | [high, medium, low] =>
    return {
      high := ← Decode.required Decode.natural high
      medium := ← Decode.required Decode.natural medium
      low := ← Decode.required Decode.natural low }
  | _ => none

end Metrics

namespace Construct

/-- The members of a construct, in the order in which they are written. -/
def fieldNames : List String :=
  ["name", "path", "dependencies", "loc", "hasTemplateUrl", "hasTemplate", "hasTranslations",
    "hasForms", "directiveMarkerCount"]

/-- Writes a construct as an object, its markers beside its other fields. -/
def toJson (construct : Construct) : Json.Value :=
  .record (fieldNames.zip
    [.text construct.name, .text construct.path,
      .array (construct.dependencies.map .text), .natural construct.loc,
      .bool construct.markers.hasTemplateUrl, .bool construct.markers.hasTemplate,
      .bool construct.markers.hasTranslations, .bool construct.markers.hasForms,
      .natural construct.markers.directiveCount])

/-- Reads a construct. -/
def ofJson? (value : Json.Value) : Option Construct := do
  match ← Decode.fields fieldNames value with
  | [name, path, dependencies, loc, hasTemplateUrl, hasTemplate, hasTranslations, hasForms,
      directiveCount] =>
    return {
      name := ← Decode.required Decode.text name
      path := ← Decode.required Decode.text path
      dependencies := ← Decode.required (Decode.list Decode.text) dependencies
      loc := ← Decode.required Decode.natural loc
      markers := {
        hasTemplateUrl := ← Decode.required Decode.bool hasTemplateUrl
        hasTemplate := ← Decode.required Decode.bool hasTemplate
        hasTranslations := ← Decode.required Decode.bool hasTranslations
        hasForms := ← Decode.required Decode.bool hasForms
        directiveCount := ← Decode.required Decode.natural directiveCount } }
  | _ => none

end Construct

namespace Summary

/-- The members of a summary, in the order in which they are written. -/
def fieldNames : List String :=
  ["totalComponents", "totalDirectives", "totalControllers", "totalServices", "totalFactories",
    "templateStats", "complexityMetrics", "filesAnalyzed", "filesFailed"]

/-- Writes a summary as an object. -/
def toJson (summary : Summary) : Json.Value :=
  .record (fieldNames.zip (summary.totals.toList.map .natural ++
    [summary.templates.toJson, summary.complexity.toJson, .natural summary.filesAnalyzed,
      .natural summary.filesFailed]))

/-- Reads a summary. -/
def ofJson? (value : Json.Value) : Option Summary := do
  match ← Decode.fields fieldNames value with
  | [components, directives, controllers, services, factories, templates, complexity,
      filesAnalyzed, filesFailed] =>
    return {
      totals := {
        components := ← Decode.required Decode.natural components
        directives := ← Decode.required Decode.natural directives
        controllers := ← Decode.required Decode.natural controllers
        services := ← Decode.required Decode.natural services
        factories := ← Decode.required Decode.natural factories }
      templates := ← Decode.required TemplateTally.ofJson? templates
      complexity := ← Decode.required Metrics.ofJson? complexity
      filesAnalyzed := ← Decode.required Decode.natural filesAnalyzed
      filesFailed := ← Decode.required Decode.natural filesFailed }
  | _ => none

end Summary

namespace Report

/-- The members of a report, in the order in which they are written. -/
def fieldNames : List String :=
  ["summary", "components", "directives", "controllers", "services", "factories",
    "dependencies", "templateStats"]

/-- Writes the dependencies of each name. -/
def dependenciesToJson (dependencies : DependencyMap) : Json.Value :=
  .record (dependencies.entries.map fun entry => (entry.1, .array (entry.2.map .text)))

/-- Writes a report as an object. -/
def toJson (report : Report) : Json.Value :=
  .record (fieldNames.zip (report.summary.toJson ::
    report.constructs.toList.map (fun constructs => .array (constructs.map Construct.toJson)) ++
    [dependenciesToJson report.dependencies, report.templates.toJson]))

/-- Reads a report. -/
def ofJson? (value : Json.Value) : Option Report := do
  match ← Decode.fields fieldNames value with
  | [summary, components, directives, controllers, services, factories, dependencies,
      templates] =>
    return {
      summary := ← Decode.required Summary.ofJson? summary
      constructs := {
        components := ← Decode.required (Decode.list Construct.ofJson?) components
        directives := ← Decode.required (Decode.list Construct.ofJson?) directives
        controllers := ← Decode.required (Decode.list Construct.ofJson?) controllers
        services := ← Decode.required (Decode.list Construct.ofJson?) services
        factories := ← Decode.required (Decode.list Construct.ofJson?) factories }
      dependencies := ← Decode.required (Decode.map (Decode.list Decode.text)) dependencies
      templates := ← Decode.required TemplateTally.ofJson? templates }
  | _ => none

/-- The text of the artifact. -/
def render (report : Report) : String :=
  report.toJson.render

/-- The report that a text holds. -/
def parse? (text : String) : Option Report := do
  ofJson? (← Json.Value.parse? text)

end Report

end Stocktake
