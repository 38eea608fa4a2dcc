import Stocktake.Proofs.Text.Utf8

/-! Bytes are cut into spelled characters and longest invalid parts in one way only, and ASCII bytes
are never in such a part. -/

namespace Stocktake

/-- With these bytes the spelling of some character begins. -/
def BeginsCharacter (part : Bytes) : Prop :=
  ∃ c : Char, part <+: String.utf8EncodeChar c

/-- A part before other bytes is a longest beginning of a character that is not spelled in full, or a
single byte that begins none. -/
structure IsInvalidPart (part rest : Bytes) : Prop where
  filled : part ≠ []
  incomplete : ∀ c, part ≠ String.utf8EncodeChar c
  begins : BeginsCharacter part ∨ part.length = 1
  longest : ∀ next ∈ rest.head?, ¬ BeginsCharacter (part ++ [next])

/-- A text is what bytes spell when one replacement stands for each longest invalid part. -/
inductive IsLossyText : Bytes → List Char → Prop
  | nil : IsLossyText [] []
  | character (c : Char) {rest : Bytes} {text : List Char} (later : IsLossyText rest text) :
    IsLossyText (String.utf8EncodeChar c ++ rest) (c :: text)
  | invalid {part rest : Bytes} {text : List Char} (broken : IsInvalidPart part rest)
      (later : IsLossyText rest text) :
    IsLossyText (part ++ rest) (replacement :: text)

/-- The first byte of a text has the number that is written for it. -/
private theorem toNat_of_cons_eq {lead : UInt8} {mark : Nat} {tail rest : Bytes} (small : mark < 256)
    (spelled : UInt8.ofNat mark :: rest = lead :: tail) : lead.toNat = mark := by
  -- The number fits into a byte.
  rw [← (List.cons.inj spelled).1, UInt8.toNat_ofNat_of_lt' small]

/-- The first byte of a character tells its length and its highest digit. -/
theorem lead_cases {c : Char} {lead : UInt8} {tail : Bytes}
    (spelled : String.utf8EncodeChar c = lead :: tail) :
    c.toNat < 0x80 ∧ lead.toNat = c.toNat ∨
      (0x80 ≤ c.toNat ∧ c.toNat < 0x800) ∧ lead.toNat = c.toNat / 64 + 0xC0 ∨
      (0x800 ≤ c.toNat ∧ c.toNat < 0x10000) ∧ lead.toNat = c.toNat / 4096 + 0xE0 ∨
      (0x10000 ≤ c.toNat ∧ c.toNat < 0x110000) ∧ lead.toNat = c.toNat / 262144 + 0xF0 := by
  -- The mark of the first byte depends on the number of bytes, and leaves its digit free.
  have valid : c.toNat < 0xD800 ∨ 0xDFFF < c.toNat ∧ c.toNat < 0x110000 := c.valid
  rw [utf8EncodeChar_eq] at spelled
  split at spelled
  · have same := toNat_of_cons_eq (by omega) spelled
    omega
  split at spelled
  · have same := toNat_of_cons_eq (by omega) spelled
    omega
  split at spelled
  · have same := toNat_of_cons_eq (by omega) spelled
    omega
  · have same := toNat_of_cons_eq (by omega) spelled
    omega

/-- The number of a byte that begins a character tells the same. -/
theorem mark_cases {c : Char} {value : Nat} (small : value < 256)
    (begins : [UInt8.ofNat value] <+: String.utf8EncodeChar c) :
    c.toNat < 0x80 ∧ value = c.toNat ∨
      (0x80 ≤ c.toNat ∧ c.toNat < 0x800) ∧ value = c.toNat / 64 + 0xC0 ∨
      (0x800 ≤ c.toNat ∧ c.toNat < 0x10000) ∧ value = c.toNat / 4096 + 0xE0 ∨
      (0x10000 ≤ c.toNat ∧ c.toNat < 0x110000) ∧ value = c.toNat / 262144 + 0xF0 := by
  -- The byte is the first one of the character, and has the number for which it is written.
  obtain ⟨tail, spelled⟩ := begins
  have mark := lead_cases spelled.symm
  rwa [UInt8.toNat_ofNat_of_lt' small] at mark

/-- Behind its first byte, a character has bytes that begin none. -/
theorem mem_tail_utf8EncodeChar {c : Char} {byte : UInt8}
    (member : byte ∈ (String.utf8EncodeChar c).tail) : 0x80 ≤ byte.toNat ∧ byte.toNat < 0xC0 := by
  -- Each further byte is a digit to the base 64 with the same mark.
  have inner : ∀ digit, 0x80 ≤ (UInt8.ofNat (digit % 0x40 + 0x80)).toNat ∧
      (UInt8.ofNat (digit % 0x40 + 0x80)).toNat < 0xC0 := by
    intro digit
    rw [UInt8.toNat_ofNat']
    omega
  rw [utf8EncodeChar_eq] at member
  split at member
  · simp at member
  split at member
  · rw [List.tail_cons, List.mem_singleton] at member
    exact member ▸ inner _
  split at member
  · simp only [List.tail_cons, List.mem_cons, List.not_mem_nil, or_false] at member
    rcases member with rfl | rfl <;> exact inner _
  · simp only [List.tail_cons, List.mem_cons, List.not_mem_nil, or_false] at member
    rcases member with rfl | rfl | rfl <;> exact inner _

/-- An ASCII byte spells the character with its code. -/
theorem utf8EncodeChar_ofUInt8 {byte : UInt8} (ascii : byte < 0x80) :
    String.utf8EncodeChar (.ofUInt8 byte) = [byte] := by
  -- Its code is small enough for a single byte.
  have small : (Char.ofUInt8 byte).toNat ≤ 0x7F := Nat.le_of_lt_succ ascii
  have code : (Char.ofUInt8 byte).toNat = byte.toNat := rfl
  rw [utf8EncodeChar_eq, if_pos small, code, UInt8.ofNat_toNat]

/-- Of the bytes of a character, only that of an ASCII character is an ASCII byte. -/
theorem filter_utf8EncodeChar (c : Char) :
    ((String.utf8EncodeChar c).filter (· < 0x80)).map .ofUInt8 = [c].filter (·.toNat < 0x80) := by
  obtain ⟨lead, tail, spelled⟩ := List.exists_cons_of_ne_nil String.utf8EncodeChar_ne_nil
  have mark := lead_cases spelled
  have none : tail.filter (· < 0x80) = [] := by
    rw [List.filter_eq_nil_iff]
    intro byte member
    have inner : byte ∈ (String.utf8EncodeChar c).tail := by rwa [spelled]
    simpa [UInt8.lt_iff_toNat_lt] using (mem_tail_utf8EncodeChar inner).1
  rw [spelled]
  by_cases ascii : lead < 0x80
  · -- The byte and the character have the same code.
    have small : lead.toNat < 0x80 := ascii
    have kept : c.toNat < 0x80 := by omega
    have same : (Char.ofUInt8 lead).toNat = c.toNat := by
      change lead.toNat = c.toNat
      omega
    obtain rfl := Char.toNat_inj.mp same
    rw [List.filter_cons_of_pos (by simpa using ascii), none,
      List.filter_cons_of_pos (by simpa using kept)]
    rfl
  · have large : ¬ lead.toNat < 0x80 := ascii
    have past : ¬ c.toNat < 0x80 := by omega
    rw [List.filter_cons_of_neg (by simpa using ascii), none,
      List.filter_cons_of_neg (by simpa using past)]
    rfl

/-- No character begins another one. -/
theorem eq_of_utf8EncodeChar_isPrefix {c d : Char}
    (within : String.utf8EncodeChar c <+: String.utf8EncodeChar d) : c = d := by
  -- Decoding the longer bytes gives one character, and begins with the shorter one.
  obtain ⟨rest, same⟩ := within
  have decoded := Utf8State.decode_utf8EncodeChar d []
  rw [List.append_nil, ← same, Utf8State.decode_utf8EncodeChar] at decoded
  exact (List.cons.inj decoded).1

/-- What begins a longer part begins the same characters. -/
theorem BeginsCharacter.of_isPrefix {part longer : Bytes} (begins : BeginsCharacter longer)
    (within : part <+: longer) : BeginsCharacter part := by
  -- The character that the longer part begins is begun by the shorter one, too.
  obtain ⟨c, begins⟩ := begins
  exact ⟨c, within.trans begins⟩

namespace IsInvalidPart

variable {part part' rest rest' : Bytes}

/-- An invalid part goes on with no beginning of a character. -/
theorem not_begins_append {next : UInt8} (broken : IsInvalidPart part (next :: rest))
    (more : Bytes) : ¬ BeginsCharacter (part ++ next :: more) := by
  -- A longer beginning would make the part one byte longer.
  intro begins
  have shorter : part ++ [next] <+: part ++ next :: more := ⟨more, by simp⟩
  exact broken.longest next (by simp) (begins.of_isPrefix shorter)

/-- Bytes do not begin with a character and with an invalid part. -/
theorem ne_character (broken : IsInvalidPart part rest) (c : Char) :
    part ++ rest ≠ String.utf8EncodeChar c ++ rest' := by
  intro same
  rcases List.append_eq_append_iff.mp same with ⟨more, spelled, shape⟩ | ⟨more, shape, _⟩
  · -- The character would go on the part.
    cases more with
    | nil => exact broken.incomplete c (by simpa using spelled.symm)
    | cons next more =>
      rw [shape] at broken
      exact broken.not_begins_append more ⟨c, spelled ▸ List.prefix_rfl⟩
  · -- The part would have the character in it, and begin another one or be a single byte.
    have full : part = String.utf8EncodeChar c := by
      rcases broken.begins with ⟨d, begins⟩ | single
      · have within : String.utf8EncodeChar c <+: part := ⟨more, shape.symm⟩
        obtain rfl := eq_of_utf8EncodeChar_isPrefix (within.trans begins)
        exact begins.eq_of_length_le within.length_le
      · have some := List.length_pos_iff.mpr (String.utf8EncodeChar_ne_nil (c := c))
        rw [shape, List.length_append] at single
        have none : more = [] := List.length_eq_zero_iff.mp (by omega)
        rw [shape, none, List.append_nil]
    exact broken.incomplete c full

/-- The longer part begins a character, or is no longer than a byte. -/
private theorem eq_nil_of_append {more : Bytes} (broken : IsInvalidPart part (more ++ rest'))
    (longer : IsInvalidPart (part ++ more) rest') : more = [] := by
  -- An invalid part is never lengthened to the beginning of a character.
  cases more with
  | nil => rfl
  | cons next more =>
    rcases longer.begins with begins | single
    · exact absurd begins (broken.not_begins_append more)
    · have some := List.length_pos_iff.mpr broken.filled
      rw [List.length_append, List.length_cons] at single
      omega

/-- Bytes begin with one invalid part only. -/
theorem unique (broken : IsInvalidPart part rest) (broken' : IsInvalidPart part' rest')
    (same : part ++ rest = part' ++ rest') : part = part' ∧ rest = rest' := by
  -- One of both parts would be longer than the other, and go on with nothing.
  rcases List.append_eq_append_iff.mp same with ⟨more, rfl, rfl⟩ | ⟨more, rfl, rfl⟩
  · obtain rfl := eq_nil_of_append broken broken'
    simp
  · obtain rfl := eq_nil_of_append broken' broken
    simp

/-- The bytes of an invalid part are past ASCII. -/
theorem past_ascii (broken : IsInvalidPart part rest) {byte : UInt8} (member : byte ∈ part) :
    0x80 ≤ byte := by
  -- An ASCII byte is a character by itself, so that it does not begin the part.
  refine Decidable.byContradiction fun ascii => ?_
  have ascii : byte < 0x80 := UInt8.not_le.mp ascii
  have whole := utf8EncodeChar_ofUInt8 ascii
  obtain ⟨lead, tail, rfl⟩ := List.exists_cons_of_ne_nil broken.filled
  rcases List.mem_cons.mp member with rfl | inside
  · have same : byte :: tail ++ rest = String.utf8EncodeChar (.ofUInt8 byte) ++ (tail ++ rest) := by
      rw [whole]
      rfl
    exact broken.ne_character _ same
  · rcases broken.begins with ⟨c, more, spelled⟩ | single
    · have behind : byte ∈ (String.utf8EncodeChar c).tail := by
        rw [← spelled]
        exact List.mem_append_left more inside
      exact absurd ascii (UInt8.not_lt.mpr (mem_tail_utf8EncodeChar behind).1)
    · rw [List.length_cons] at single
      have none : tail = [] := List.length_eq_zero_iff.mp (by omega)
      simp [none] at inside

/-- Before a character, an invalid part stays one. -/
theorem before_character (broken : IsInvalidPart part rest) (c : Char) (behind : Bytes) :
    IsInvalidPart part (rest ++ (String.utf8EncodeChar c ++ behind)) where
  filled := broken.filled
  incomplete := broken.incomplete
  begins := broken.begins
  longest := by
    cases rest with
    | cons next rest =>
      intro first same
      exact broken.longest first same
    | nil =>
      -- The first byte of a character is none of those that go on another one.
      rintro next first ⟨d, begins⟩
      obtain ⟨mark, tail, spelled⟩ := List.exists_cons_of_ne_nil String.utf8EncodeChar_ne_nil
      rw [List.nil_append, spelled, List.cons_append, List.head?_cons, Option.mem_some] at first
      obtain ⟨lead, inner, rfl⟩ := List.exists_cons_of_ne_nil broken.filled
      obtain ⟨more, begins⟩ := begins
      have behind : next ∈ (String.utf8EncodeChar d).tail := by
        rw [← begins]
        simp
      have goesOn := mem_tail_utf8EncodeChar behind
      have starts := lead_cases spelled
      rw [first] at starts
      omega

end IsInvalidPart

namespace IsLossyText

variable {bytes bytes' : Bytes} {text text' : List Char}

/-- Bytes leave one text only. -/
theorem unique (lossy : IsLossyText bytes text) (lossy' : IsLossyText bytes text') :
    text = text' := by
  induction lossy generalizing text' with
  | nil =>
    generalize same : ([] : Bytes) = bytes at lossy'
    cases lossy' with
    | nil => rfl
    | character c => exact absurd (List.append_eq_nil_iff.mp same.symm).1 String.utf8EncodeChar_ne_nil
    | invalid broken => exact absurd (List.append_eq_nil_iff.mp same.symm).1 broken.filled
  | @character c rest text later ih =>
    generalize same : String.utf8EncodeChar c ++ rest = bytes at lossy'
    cases lossy' with
    | nil => exact absurd (List.append_eq_nil_iff.mp same).1 String.utf8EncodeChar_ne_nil
    | @character d rest' text' later' =>
      -- Both characters are decoded in front of the same bytes.
      have decoded := congrArg (Utf8State.decode .start) same
      rw [Utf8State.decode_utf8EncodeChar, Utf8State.decode_utf8EncodeChar] at decoded
      obtain rfl := (List.cons.inj decoded).1
      obtain rfl := List.append_cancel_left same
      rw [ih later']
    | invalid broken => exact absurd same.symm (broken.ne_character c)
  | @invalid part rest text broken later ih =>
    generalize same : part ++ rest = bytes at lossy'
    cases lossy' with
    | nil => exact absurd (List.append_eq_nil_iff.mp same).1 broken.filled
    | character c => exact absurd same (broken.ne_character c)
    | invalid broken' later' =>
      obtain ⟨rfl, rfl⟩ := broken.unique broken' same
      rw [ih later']

/-- A character keeps apart what is left of the bytes before it and of those behind it. -/
theorem append_character (lossy : IsLossyText bytes text) (c : Char)
    (lossy' : IsLossyText bytes' text') :
    IsLossyText (bytes ++ (String.utf8EncodeChar c ++ bytes')) (text ++ c :: text') := by
  -- The character stays behind all characters and invalid parts before it.
  induction lossy with
  | nil => exact .character c lossy'
  | character d _ ih =>
    rw [List.append_assoc]
    exact .character d ih
  | invalid broken _ ih =>
    rw [List.append_assoc]
    exact .invalid (broken.before_character c bytes') ih

/-- Bytes that are decoded without a replacement are those of their text. -/
theorem eq_utf8Encode (lossy : IsLossyText bytes text) (whole : replacement ∉ text) :
    bytes = utf8Encode text := by
  induction lossy with
  | nil => rfl
  | character c later ih =>
    rw [ih fun member => whole (List.mem_cons_of_mem c member)]
    rfl
  | invalid broken later ih =>
    -- An invalid part would have left a replacement.
    exact absurd List.mem_cons_self whole

/-- The ASCII characters of what is left are the ASCII bytes, in order. -/
theorem filter_ascii (lossy : IsLossyText bytes text) :
    text.filter (·.toNat < 0x80) = (bytes.filter (· < 0x80)).map .ofUInt8 := by
  -- A character keeps its ASCII byte, and an invalid part has none.
  induction lossy with
  | nil => rfl
  | @character c rest text later ih =>
    rw [List.filter_append, List.map_append, filter_utf8EncodeChar, ← ih, ← List.filter_append,
      List.singleton_append]
  | @invalid part rest text broken later ih =>
    have none : part.filter (· < 0x80) = [] := by
      rw [List.filter_eq_nil_iff]
      intro byte member
      have past := broken.past_ascii member
      simpa using past
    rw [List.filter_append, none, List.nil_append, ← ih]
    rfl

end IsLossyText

end Stocktake
