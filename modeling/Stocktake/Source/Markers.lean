import Stocktake.Text.Recogniser

/-! Markers are words of a source text that tell what kinds of template it carries. -/

namespace Stocktake

/-- What a source text shows about its templates. -/
structure Markers where
  hasTemplateUrl : Bool
  hasTemplate : Bool
  hasTranslations : Bool
  hasForms : Bool
  directiveCount : Nat
  deriving DecidableEq, Repr

/-- Reads a directive marker: `ng-` and an ASCII letter. -/
def directiveMarker? : List Char → Option (Unit × List Char)
  | 'n' :: 'g' :: '-' :: c :: rest => if c.isAlpha then some ((), rest) else none
  | _ => none

/-- A directive marker takes up room. -/
theorem directiveMarker?_shorter {text : List Char} {item : Unit} {rest : List Char}
    (read : directiveMarker? text = some (item, rest)) : rest.length < text.length := by
  -- The marker is the fixed run of characters that the match takes off.
  unfold directiveMarker? at read
  split at read
  · split at read
    · simp only [Option.some.injEq, Prod.mk.injEq] at read
      rw [← read.2]
      simp only [List.length_cons]
      omega
    · simp at read
  · simp at read

/-- Recognises directive markers. -/
def directiveRecogniser : Recogniser Unit where
  front? := directiveMarker?
  shorter := directiveMarker?_shorter

namespace Markers

/-- The markers of a source text. -/
def ofText (text : List Char) : Markers where
  hasTemplateUrl := occursIn "templateUrl".toList text
  hasTemplate := occursIn "template:".toList text
  hasTranslations := occursIn "translate".toList text
  hasForms := occursIn "ng-model".toList text || occursIn "form".toList text
  directiveCount := (directiveRecogniser.findAll text).length

/-- A text has a template when it names or holds one. -/
def hasAnyTemplate (markers : Markers) : Bool :=
  markers.hasTemplateUrl || markers.hasTemplate

/-- A text has directives when it has at least one directive marker. -/
def hasDirectives (markers : Markers) : Bool :=
  markers.directiveCount > 0

end Markers

end Stocktake
