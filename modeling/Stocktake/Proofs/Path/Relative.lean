import Mathlib.Data.List.Basic
import Stocktake.Proofs.Path.Bytes
import Stocktake.Proofs.Path.Respelling

/-! A path relative to a root is told by the components of both, and tells the path below it. -/

namespace Stocktake

namespace Path

variable {root path : String}

/-- Behind a root that leads to a path there are the components that follow its own. -/
theorem componentsBelow_of_append {below : List Component}
    (leads : components path = components root ++ below) : componentsBelow root path = below := by
  -- The components of the root are taken off the front.
  rw [componentsBelow, List.isPrefixOf?_eq_some_iff_append_eq.mpr leads.symm]
  rfl

/-- Behind a root that does not lead to a path there are all of its components. -/
theorem componentsBelow_of_astray (astray : ¬ components root <+: components path) :
    componentsBelow root path = components path := by
  -- Taking off what does not stand at the front fails, and then the whole is shown.
  rw [componentsBelow]
  cases found : (components root).isPrefixOf? (components path) with
  | none => rfl
  | some below => exact absurd ⟨below, List.isPrefixOf?_eq_some_iff_append_eq.mp found⟩ astray

/-- A path is relative to a root by the components that follow, as they are shown. -/
theorem relativeBytes_eq_spelled (root path : Bytes) :
    relativeBytes root path =
      spelled ((componentsBelow (byteText root) (byteText path)).map Component.decoded) := by
  -- Both sides join the texts of the same components.
  rw [relativeBytes, spelled, List.map_map]
  rfl

/-- A path that is a text is relative to such a root by the components that follow. -/
theorem relative_eq_spelled (root path : String) :
    relative root path = spelled (componentsBelow root path) := by
  rw [relative, relativeBytes_eq_spelled]
  have shown := shownComponents_bytesOf path
  -- Whether the root leads to the path is seen from the bytes as well.
  by_cases leads : components root <+: components path
  · obtain ⟨below, whole⟩ := leads
    have behind : byteComponents (bytesOf path) =
        byteComponents (bytesOf root) ++ below.map Component.encoded := by
      rw [byteComponents_bytesOf, byteComponents_bytesOf, ← List.map_append, whole]
    rw [componentsBelow_of_append whole.symm, componentsBelow_of_append behind, List.map_map]
    exact congrArg spelled ((List.map_congr_left fun component _ =>
      component.decoded_encoded).trans (List.map_id below))
  · have astray : ¬ byteComponents (bytesOf root) <+: byteComponents (bytesOf path) := by
      rw [byteComponents_bytesOf, byteComponents_bytesOf,
        List.prefix_map_iff_of_injective Component.encoded_injective]
      exact leads
    rw [componentsBelow_of_astray leads, componentsBelow_of_astray astray]
    exact congrArg spelled shown

/-- What follows in a path stands at its end, or is the whole of it. -/
private theorem componentsBelow_isSuffix (root path : String) :
    componentsBelow root path <:+ components path := by
  -- Either the root is taken off or nothing is.
  by_cases leads : components root <+: components path
  · obtain ⟨below, whole⟩ := leads
    exact ⟨components root, by rw [componentsBelow_of_append whole.symm, whole]⟩
  · exact ⟨[], by rw [List.nil_append, componentsBelow_of_astray leads]⟩

/-- What follows in a path could be a path itself, since only its beginning is special. -/
theorem areReadable_componentsBelow (root path : String) :
    AreReadable (componentsBelow root path) := by
  -- Only the first component of a path may be special, and here it may be gone.
  obtain ⟨front, whole⟩ := componentsBelow_isSuffix root path
  have readable := areReadable_components path
  rw [← whole] at readable
  exact readable.of_append

/-- The components of a relative path are those behind the root. -/
theorem components_relative (root path : String) :
    components (relative root path) = componentsBelow root path := by
  -- The text that is spelled has the components that it was spelled from.
  rw [relative_eq_spelled, components_spelled (areReadable_componentsBelow root path)]

/-- The components of a relative path of bytes are those behind the root as they are shown. -/
theorem components_relativeBytes (root path : Bytes) :
    components (relativeBytes root path) =
      (componentsBelow (byteText root) (byteText path)).map Component.decoded := by
  -- Showing a component leaves its place in the path as it is.
  rw [relativeBytes_eq_spelled]
  exact components_spelled (areReadable_decoded
    (componentsBelow_isSuffix (byteText root) (byteText path)).subset
    (areReadable_componentsBelow _ _))

/-- Below one root, paths are relative to it by the same text when they are shown alike. -/
theorem relativeBytes_eq_iff {root path path' : Bytes}
    (leads : byteComponents root <+: byteComponents path)
    (leads' : byteComponents root <+: byteComponents path') :
    relativeBytes root path = relativeBytes root path' ↔
      shownComponents path = shownComponents path' := by
  obtain ⟨below, whole⟩ := leads
  obtain ⟨below', whole'⟩ := leads'
  rw [shownComponents, shownComponents, ← whole, ← whole', List.map_append, List.map_append,
    List.append_cancel_left_eq]
  constructor
  · intro same
    -- The components behind the root are read back from the relative path.
    have read := congrArg components same
    rwa [components_relativeBytes, components_relativeBytes,
      componentsBelow_of_append whole.symm, componentsBelow_of_append whole'.symm] at read
  · intro same
    rw [relativeBytes_eq_spelled, relativeBytes_eq_spelled, componentsBelow_of_append whole.symm,
      componentsBelow_of_append whole'.symm, same]

/-- Below one root, paths with different components differ also when they are relative to it. -/
theorem components_eq_of_relative_eq {path' : String} (leads : components root <+: components path)
    (leads' : components root <+: components path')
    (same : relative root path = relative root path') : components path = components path' := by
  -- Texts are shown as they are.
  have bytes : ∀ {path : String}, components root <+: components path →
      byteComponents (bytesOf root) <+: byteComponents (bytesOf path) := by
    intro path leads
    rw [byteComponents_bytesOf, byteComponents_bytesOf]
    exact leads.map Component.encoded
  have shown := (relativeBytes_eq_iff (bytes leads) (bytes leads')).mp same
  rwa [shownComponents_bytesOf, shownComponents_bytesOf] at shown

/-- Names that are no UTF-8 can be shown alike though they are different components. -/
theorem relativeBytes_alike :
    let one := bytesOf "app/a" ++ 0xFE :: bytesOf ".js"
    let other := bytesOf "app/a" ++ 0xFF :: bytesOf ".js"
    byteComponents one ≠ byteComponents other ∧
      relativeBytes (bytesOf "app") one = relativeBytes (bytesOf "app") other := by
  -- Neither of the two bytes can stand in UTF-8, and the same mark is shown for both.
  decide +kernel

end Path

end Stocktake
