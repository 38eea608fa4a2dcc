import Mathlib.Data.List.Basic
import Stocktake.Proofs.Path.Components
import Stocktake.Proofs.Text.InvalidPart
import Stocktake.Proofs.Text.Lossy

/-! A path of bytes has the components of a text that is spelled by its bytes. -/

namespace Stocktake

/-- A byte is read back from its character. -/
theorem toUInt8_ofUInt8 (byte : UInt8) : (Char.ofUInt8 byte).toUInt8 = byte :=
  -- The character has the byte as its code.
  UInt8.toUInt8_toUInt32 byte

/-- The characters that stand for the bytes of a text. -/
def byteChars (text : List Char) : List Char :=
  (utf8Encode text).map Char.ofUInt8

/-- A text is decoded from the characters that stand for its bytes. -/
theorem utf8Lossy_byteChars (text : List Char) :
    utf8Lossy ((byteChars text).map Char.toUInt8) = text := by
  -- The characters are those of the bytes, and decoding them undoes the encoding.
  have back : (Char.toUInt8 ∘ Char.ofUInt8) = id := funext toUInt8_ofUInt8
  rw [byteChars, List.map_map, back, List.map_id, utf8Lossy_utf8Encode]

/-- Different texts have different bytes. -/
theorem byteChars_injective : Function.Injective byteChars := by
  -- Decoding gives each of the texts back.
  intro one other same
  rw [← utf8Lossy_byteChars one, same, utf8Lossy_byteChars]

/-- The bytes of a text are those of its parts. -/
theorem byteChars_append (front back : List Char) :
    byteChars (front ++ back) = byteChars front ++ byteChars back := by
  -- Texts are encoded one character after the other.
  rw [byteChars, utf8Encode, List.flatMap_append, List.map_append]
  rfl

/-- No byte of a character but the slash is a slash. -/
theorem slash_not_mem_byteChars {text : List Char} (free : '/' ∉ text) : '/' ∉ byteChars text := by
  intro member
  obtain ⟨byte, inside, same⟩ := List.mem_map.mp member
  obtain ⟨c, among, spelled⟩ := List.mem_flatMap.mp inside
  -- A slash is an ASCII byte, and such a byte spells its own character.
  have slash : byte = 0x2F := by
    rw [← toUInt8_ofUInt8 byte, same]
    rfl
  have own : '/' ∈ ((String.utf8EncodeChar c).filter (· < 0x80)).map Char.ofUInt8 :=
    List.mem_map.mpr ⟨byte, List.mem_filter.mpr ⟨spelled, by rw [slash]; rfl⟩, same⟩
  rw [filter_utf8EncodeChar] at own
  obtain rfl : '/' = c := by simpa using (List.mem_filter.mp own).1
  exact free among

/-- The bytes of a text are divided by slashes as the text is. -/
theorem splitOn_byteChars (text : List Char) :
    (byteChars text).splitOn '/' = (text.splitOn '/').map byteChars := by
  induction text using separated_induction '/' with
  | whole text free =>
    rw [List.splitOn_eq_singleton free, List.splitOn_eq_singleton (slash_not_mem_byteChars free)]
    rfl
  | parts segment rest free ih =>
    -- The slash itself is one byte.
    have parts : byteChars (segment ++ '/' :: rest) =
        byteChars segment ++ '/' :: byteChars rest := by
      rw [byteChars_append, ← List.singleton_append, byteChars_append]
      rfl
    rw [parts, List.splitOn_append_cons_self_of_not_mem free,
      List.splitOn_append_cons_self_of_not_mem (slash_not_mem_byteChars free), ih, List.map_cons]

/-- A name of bytes is shown as one that a path can have in it. -/
theorem Component.IsInner.shown {bytes : Bytes}
    (inner : (Component.name (Path.byteText bytes)).IsInner) :
    (Component.name (String.ofList (utf8Lossy bytes))).IsInner := by
  obtain ⟨filled, notDot, notDots, free⟩ := inner
  have lossy : IsLossyText bytes (utf8Lossy bytes) := isLossyText_iff.mpr rfl
  -- A text of ASCII is shown for its own bytes alone.
  have apart : ∀ {plain : String}, replacement ∉ plain.toList →
      byteChars plain.toList = plain.toList → Path.byteText bytes ≠ plain →
      String.ofList (utf8Lossy bytes) ≠ plain := by
    intro plain whole own other same
    have text : utf8Lossy bytes = plain.toList := by rw [← same, String.toList_ofList]
    rw [text] at lossy
    refine other ?_
    rw [lossy.eq_utf8Encode whole, Path.byteText]
    exact (congrArg String.ofList own).trans String.ofList_toList
  refine ⟨apart (by decide) rfl filled, apart (by decide) rfl notDot, apart (by decide) rfl notDots,
    fun slash => free ?_⟩
  -- A slash is shown for a slash only.
  rw [String.toList_ofList] at slash
  have kept : '/' ∈ (utf8Lossy bytes).filter (·.toNat < 0x80) := List.mem_filter.mpr ⟨slash, rfl⟩
  rw [filter_ascii_utf8Lossy] at kept
  obtain ⟨byte, member, same⟩ := List.mem_map.mp kept
  rw [Path.byteText, String.toList_ofList]
  exact List.mem_map.mpr ⟨byte, (List.mem_filter.mp member).1, same⟩

/-- A component with the bytes of its name. -/
def Component.encoded : Component → Component
  | .name text => .name (Path.byteText (Path.bytesOf text))
  | component => component

/-- A component is shown as it is when its bytes are those of a text. -/
theorem Component.decoded_encoded (component : Component) :
    component.encoded.decoded = component := by
  -- Only a name has a text, and its bytes are decoded to that text.
  cases component with
  | name text =>
    rw [encoded, decoded, Path.byteText, String.toList_ofList]
    exact congrArg Component.name
      ((congrArg String.ofList (utf8Lossy_byteChars text.toList)).trans String.ofList_toList)
  | _ => rfl

/-- Different components have different bytes. -/
theorem Component.encoded_injective : Function.Injective Component.encoded :=
  -- What is shown gives the component back.
  Function.LeftInverse.injective decoded_encoded

namespace Path

/-- The bytes of a segment spell what the segment does. -/
theorem component?_byteChars (segment : List Char) :
    component? (byteChars segment) = (component? segment).map Component.encoded := by
  -- Only the bytes of a dot are a dot.
  have apart : ∀ {plain : List Char}, byteChars plain = plain → segment ≠ plain →
      byteChars segment ≠ plain := by
    rintro plain own other same
    exact other (byteChars_injective (same.trans own.symm))
  by_cases empty : segment = []
  · rw [empty]
    rfl
  by_cases dot : segment = ['.']
  · rw [dot]
    rfl
  by_cases dots : segment = ['.', '.']
  · rw [dots]
    rfl
  · -- Anything else is a name, and so are its bytes.
    have name : ∀ {plain : List Char}, plain ≠ [] → plain ≠ ['.'] → plain ≠ ['.', '.'] →
        component? plain = some (.name (String.ofList plain)) := by
      intro plain filled notDot notDots
      unfold component?
      split <;> simp_all
    rw [name empty dot dots, name (apart rfl empty) (apart rfl dot) (apart rfl dots)]
    rw [Option.map_some, Component.encoded, bytesOf, String.toList_ofList]
    rfl

/-- The bytes of a first segment spell what the segment does. -/
theorem leading_byteChars (segment : List Char) :
    leading (byteChars segment) = (leading segment).map Component.encoded := by
  by_cases empty : segment = []
  · rw [empty]
    rfl
  by_cases dot : segment = ['.']
  · rw [dot]
    rfl
  · -- It spells what it would elsewhere, since its bytes are no dot and not nothing, either.
    have filled : byteChars segment ≠ [] := fun none => empty (byteChars_injective none)
    have other : byteChars segment ≠ ['.'] := fun same => dot (byteChars_injective same)
    rw [leading_eq empty dot, leading_eq filled other, component?_byteChars]
    cases component? segment <;> rfl

/-- The bytes of a path have the components of the path, with the bytes of their names. -/
theorem byteComponents_bytesOf (path : String) :
    byteComponents (bytesOf path) = (components path).map Component.encoded := by
  rw [byteComponents]
  by_cases present : path = ""
  · rw [present]
    rfl
  · have spelled : (byteText (bytesOf path)).toList = byteChars path.toList := String.toList_ofList
    have filled : byteText (bytesOf path) ≠ "" := by
      intro none
      rw [none] at spelled
      exact present (String.toList_eq_nil_iff.mp (byteChars_injective spelled.symm))
    obtain ⟨first, rest, segments⟩ := List.exists_cons_of_ne_nil
      (List.splitOn_ne_nil '/' path.toList)
    have divided : (byteText (bytesOf path)).toList.splitOn '/' =
        byteChars first :: rest.map byteChars := by
      rw [spelled, splitOn_byteChars, segments, List.map_cons]
    rw [components_eq present segments, components_eq filled divided, List.map_append,
      leading_byteChars, List.filterMap_map, List.map_filterMap]
    -- What stands behind the first slash is looked at piece by piece.
    exact congrArg _ (List.filterMap_congr fun segment _ => component?_byteChars segment)

/-- The components of a path are spelled by characters of the path. -/
theorem text_subset_of_mem_components {path : String} {component : Component}
    (member : component ∈ components path) : component.text.toList ⊆ path.toList := by
  have present : path ≠ "" := by
    rintro rfl
    cases member
  obtain ⟨first, rest, segments⟩ := List.exists_cons_of_ne_nil
    (List.splitOn_ne_nil '/' path.toList)
  have within : ∀ segment ∈ first :: rest, segment ⊆ path.toList := by
    intro segment among
    rw [← segments] at among
    exact subset_of_mem_splitOn among
  rw [components_eq present segments] at member
  rcases List.mem_append.mp member with own | later
  · by_cases filled : first = []
    · -- An empty first segment stands before a slash, which is the root.
      rw [filled] at own segments
      obtain rfl := List.mem_singleton.mp own
      have absolute := (nil_segment present segments).2
      have slash : '/' ∈ path.toList := List.mem_of_mem_head? (eq_of_beq absolute)
      exact List.cons_subset.mpr ⟨slash, List.nil_subset _⟩
    · obtain ⟨only, shape, text⟩ := exists_leading filled
      rw [shape, List.mem_singleton] at own
      rw [own, text, String.toList_ofList]
      exact within first List.mem_cons_self
  · obtain ⟨segment, among, found⟩ := List.mem_filterMap.mp later
    rw [toList_text_of_component? found]
    exact within segment (List.mem_cons_of_mem _ among)

/-- The components of a path of bytes are shown as components that a path can have. -/
theorem areReadable_decoded {path : Bytes} {parts : List Component}
    (among : parts ⊆ byteComponents path) (readable : AreReadable parts) :
    AreReadable (parts.map Component.decoded) := by
  have inner : ∀ component ∈ parts, component.IsInner → component.decoded.IsInner := by
    intro component member own
    cases component with
    | name text =>
      -- Its characters are bytes of the path.
      have bytes : byteText (text.toList.map Char.toUInt8) = text := by
        have spelled := text_subset_of_mem_components (among member)
        rw [byteText, List.map_map, ← @String.ofList_toList text, String.toList_ofList]
        refine congrArg String.ofList ((List.map_congr_left fun c inside => ?_).trans (List.map_id _))
        obtain ⟨byte, _, rfl⟩ := List.mem_map.mp (String.toList_ofList ▸ spelled inside)
        exact congrArg Char.ofUInt8 (toUInt8_ofUInt8 byte)
      rw [← bytes] at own
      exact own.shown
    | _ => exact own
  cases parts with
  | nil => trivial
  | cons first others =>
    obtain ⟨kind, later⟩ := readable
    obtain ⟨own, rest⟩ := List.forall_mem_cons.mp inner
    refine ⟨kind.imp own (Or.imp (fun root => ?_) fun current => ?_), ?_⟩
    · rw [root]
      rfl
    · rw [current]
      rfl
    · intro component member
      obtain ⟨raw, listed, rfl⟩ := List.mem_map.mp member
      exact rest raw listed (later raw listed)

/-- The components of a path of bytes as they are shown. -/
def shownComponents (path : Bytes) : List Component :=
  (byteComponents path).map Component.decoded

/-- A path that is a text is shown with its own components. -/
theorem shownComponents_bytesOf (path : String) :
    shownComponents (bytesOf path) = components path := by
  -- Each component is encoded and then decoded again.
  rw [shownComponents, byteComponents_bytesOf, List.map_map]
  exact (List.map_congr_left fun component _ => component.decoded_encoded).trans (List.map_id _)

end Path

end Stocktake
