import Stocktake.Complexity
import Stocktake.Decode

/-! Settings choose what is scanned, how it is judged and where the report goes. -/

namespace Stocktake

/-- Which files a scan takes. -/
structure ScanSettings where
  /-- The extensions of source files; leading dots do not count. -/
  extensions : List String := ["js", "ts"]
  /-- Patterns of paths to leave out. -/
  ignored : List String := []
  respectGitignore : Bool := false
  deriving DecidableEq, Repr

/-- All settings of a run. -/
structure Settings where
  scan : ScanSettings := {}
  thresholds : Thresholds := {}
  /-- What each dependency adds to the score of a component. -/
  dependencyWeight : Nat := 10
  outputPath : String := "component-analysis.json"
  deriving DecidableEq, Repr

/-- Why settings are refused. -/
inductive SettingsFlaw
  | noExtension
  | blankExtension
  | thresholdOrder (lowMax mediumMax : Nat)
  deriving DecidableEq, Repr

/-- The wording of a refusal. -/
def SettingsFlaw.message : SettingsFlaw → String
  | .noExtension => "scan.extensions must name at least one extension"
  | .blankExtension => "scan.extensions must not contain empty entries"
  | .thresholdOrder lowMax mediumMax =>
    "thresholds.low_max (" ++ lowMax.repr ++ ") must be below thresholds.medium_max (" ++
      mediumMax.repr ++ ")"

/-- The first flaw of settings: there are extensions, none is blank, and the thresholds ascend. -/
def Settings.flaw? (settings : Settings) : Option SettingsFlaw :=
  if settings.scan.extensions.isEmpty then some .noExtension
  else if settings.scan.extensions.any fun name => allBlank name.toList then some .blankExtension
  else if settings.thresholds.mediumMax ≤ settings.thresholds.lowMax then
    some (.thresholdOrder settings.thresholds.lowMax settings.thresholds.mediumMax)
  else none

/-- Accepts settings without a flaw. -/
def Settings.validate (settings : Settings) : Except SettingsFlaw Settings :=
  match settings.flaw? with
  | some flaw => .error flaw
  | none => .ok settings

section Decoding

variable {α : Type} [Document α]

/-- Reads the settings of a scan; what is left out keeps its default. -/
def ScanSettings.decode? (value : α) : Option ScanSettings := do
  let standard : ScanSettings := {}
  match ← Decode.fields ["extensions", "ignore", "respect_gitignore"] value with
  | [extensions, ignored, respectGitignore] =>
    return {
      extensions := ← Decode.optional (Decode.list Decode.text) standard.extensions extensions
      ignored := ← Decode.optional (Decode.list Decode.text) standard.ignored ignored
      respectGitignore := ← Decode.optional Decode.bool standard.respectGitignore respectGitignore }
  | _ => none

/-- Reads the thresholds; what is left out keeps its default. -/
def Thresholds.decode? (value : α) : Option Thresholds := do
  let standard : Thresholds := {}
  match ← Decode.fields ["low_max", "medium_max"] value with
  | [lowMax, mediumMax] =>
    return {
      lowMax := ← Decode.optional Decode.natural standard.lowMax lowMax
      mediumMax := ← Decode.optional Decode.natural standard.mediumMax mediumMax }
  | _ => none

/-- Reads a section that holds one setting; when this is left out it keeps its default. -/
def decodeSection? {β : Type} (name : String) (read : α → Option β) (standard : β) (value : α) :
    Option β := do
  match ← Decode.fields [name] value with
  | [setting] => Decode.optional read standard setting
  | _ => none

/-- Reads settings; a section that is left out keeps its defaults. -/
def Settings.decode? (value : α) : Option Settings := do
  let standard : Settings := {}
  match ← Decode.fields ["scan", "thresholds", "scoring", "output"] value with
  | [scan, thresholds, scoring, output] =>
    return {
      scan := ← Decode.optional ScanSettings.decode? standard.scan scan
      thresholds := ← Decode.optional Thresholds.decode? standard.thresholds thresholds
      dependencyWeight := ← Decode.optional
        (decodeSection? "dependency_weight" Decode.natural standard.dependencyWeight)
        standard.dependencyWeight scoring
      outputPath := ← Decode.optional
        (decodeSection? "path" Decode.text standard.outputPath) standard.outputPath output }
  | _ => none

end Decoding

end Stocktake
