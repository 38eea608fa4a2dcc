import Stocktake.Proofs.Registry.Order
import Stocktake.Proofs.Source.Markers

/-! The template counts of a registry are counts over the contents of the files recorded in it. -/

namespace Stocktake

/-- A step in which a registry is filled: with the content of a file, a construct or a failure. -/
inductive Intake
  | file (path content : String)
  | declaration (category : Category) (construct : Construct)
  | failure (failure : Failure)
  deriving DecidableEq, Repr

namespace Intake

/-- The recording that a step makes; a file is analysed first. -/
def recording : Intake → Recording
  | .file path content => .file (.ofContent path content)
  | .declaration category construct => .declaration category construct
  | .failure told => .failure told

/-- The content of the file that a step records, if it is that of a file. -/
def content? : Intake → Option (List Char)
  | .file _ content => some content.toList
  | _ => none

/-- The markers that steps record are those of the contents of their files. -/
theorem markers_recordings (intakes : List Intake) :
    ((intakes.map recording).filterMap Recording.analysis?).map Analysis.markers =
      (intakes.filterMap content?).map Markers.ofText := by
  -- A step records markers only for a file that was read.
  rw [List.filterMap_map, List.map_filterMap, List.map_filterMap]
  congr 1
  funext intake
  cases intake <;> rfl

end Intake

namespace TemplateTally

variable (contents : List (List Char))

/-- The files that are counted are those with a template. -/
theorem total_ofMarkers :
    (ofMarkers (contents.map .ofText)).total = contents.countP fun text => HasTemplate text := by
  -- A file is counted when one of its markers is one of a template.
  change (contents.map Markers.ofText).countP (·.hasAnyTemplate) = _
  rw [List.countP_map]
  congr 1
  funext text
  have template := Markers.hasAnyTemplate_ofText text
  exact Bool.eq_iff_iff.mpr (by simp [template])

/-- A count of a kind of files with templates is one of contents, when markers tell the kind. -/
theorem countP_ofText {kind : Markers → Bool} {property : List Char → Prop}
    [DecidablePred property] (tells : ∀ text, kind (.ofText text) = true ↔ property text) :
    (contents.map Markers.ofText).countP (fun markers => markers.hasAnyTemplate && kind markers) =
      contents.countP fun text => HasTemplate text ∧ property text := by
  -- Both counts go over the same contents, each by its own test of a content.
  rw [List.countP_map]
  congr 1
  funext text
  have template := Markers.hasAnyTemplate_ofText text
  exact Bool.eq_iff_iff.mpr (by simp [template, tells])

/-- Files of a kind are among those with a template. -/
theorem countP_and_le (property : List Char → Prop) [DecidablePred property] :
    (contents.countP fun text => HasTemplate text ∧ property text) ≤
      contents.countP fun text => HasTemplate text := by
  -- A content with a further property is still one of those with a template.
  apply List.countP_mono_left
  intro text _ both
  simp only [decide_eq_true_eq] at both ⊢
  exact both.1

end TemplateTally

namespace Registry

/-- After any steps the template counts are numbers of recorded files, each file counting once:
those whose content has a template, and those of them that have translations, forms or directives.
Only files change the counts, and there are never more of a kind than of all files. -/
theorem templates_count_contents (intakes : List Intake) :
    let contents := intakes.filterMap Intake.content?
    let registry := ofRecordings (intakes.map Intake.recording)
    let templates := registry.templates
    templates.total = (contents.countP fun text => HasTemplate text) ∧
    templates.withTranslations =
      (contents.countP fun text => HasTemplate text ∧ HasTranslations text) ∧
    templates.withForms = (contents.countP fun text => HasTemplate text ∧ HasForms text) ∧
    templates.withDirectives =
      (contents.countP fun text => HasTemplate text ∧ HasDirectives text) ∧
    registry.filesAnalyzed = contents.length ∧
    templates.withTranslations ≤ templates.total ∧
    templates.withForms ≤ templates.total ∧
    templates.withDirectives ≤ templates.total ∧
    templates.total ≤ registry.filesAnalyzed ∧
    (∀ category construct, (registry.record category construct).templates = templates) ∧
    ∀ failure, (registry.recordFailure failure).templates = templates := by
  intro contents registry templates
  -- The counts are those of the markers, and the markers are those of the contents.
  have counts : templates = .ofMarkers (contents.map .ofText) := by
    have run := templates_ofRecordings (intakes.map Intake.recording)
    rwa [Intake.markers_recordings] at run
  have total := TemplateTally.total_ofMarkers contents
  have translations := TemplateTally.countP_ofText contents Markers.hasTranslations_ofText
  have forms := TemplateTally.countP_ofText contents Markers.hasForms_ofText
  have directives := TemplateTally.countP_ofText contents Markers.hasDirectives_ofText
  have files : registry.filesAnalyzed = contents.length := by
    have run := (files_ofRecordings (intakes.map Intake.recording)).1
    rw [← List.length_map (f := Analysis.markers), Intake.markers_recordings] at run
    rwa [List.length_map] at run
  rw [counts, files]
  refine ⟨total, translations, forms, directives, rfl, ?_, ?_, ?_, ?_, ?_, ?_⟩
  · exact (translations.trans_le (TemplateTally.countP_and_le contents _)).trans_eq total.symm
  · exact (forms.trans_le (TemplateTally.countP_and_le contents _)).trans_eq total.symm
  · exact (directives.trans_le (TemplateTally.countP_and_le contents _)).trans_eq total.symm
  · exact total.trans_le List.countP_le_length
  -- Neither of the other two steps touches the counts.
  · exact fun category construct => counts
  · exact fun failure => counts

end Registry

end Stocktake
