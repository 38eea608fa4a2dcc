import Mathlib.Algebra.Group.Nat.Defs
import Stocktake.Proofs.Text.InvalidPart

/-! Lossy decoding puts one replacement for each longest invalid part, and so keeps all characters
that are spelled in full. -/

namespace Stocktake

namespace Utf8State

/-- The last digits of a code to the base 64, as the bytes that go on a character. -/
def tailBytes : Nat → Nat → Bytes
  | 0, _ => []
  | count + 1, code => UInt8.ofNat (code / 0x40 ^ count % 0x40 + 0x80) :: tailBytes count code

/-- The codes whose digits in front of some last ones are given bits and then one between bounds. -/
def Spans (bits count low high code : Nat) : Prop :=
  bits * 0x40 + low ≤ code / 0x40 ^ count + 0x80 ∧ code / 0x40 ^ count + 0x80 ≤ bits * 0x40 + high

/-- A part is read when a decoder owes the next byte and some more: the characters that begin with
the part are those whose codes go on the bits that have been read within the bounds. -/
structure Pending (part : Bytes) (bits count low high : Nat) : Prop where
  filled : part ≠ []
  lower : 0x80 ≤ low
  ordered : low ≤ high
  upper : high ≤ 0xBF
  spans_of_begins : ∀ c, part <+: String.utf8EncodeChar c → Spans bits count low high c.toNat
  spelled : ∀ c : Char, Spans bits count low high c.toNat →
    String.utf8EncodeChar c = part ++ tailBytes (count + 1) c.toNat
  valid : ∀ code, Spans bits count low high code → code.isValidChar

variable {part : Bytes} {bits count low high : Nat} {byte : UInt8}

/-- A byte goes on the characters that have it as their next digit. -/
theorem Pending.append_begins_iff (pending : Pending part bits count low high) (c : Char) :
    part ++ [byte] <+: String.utf8EncodeChar c ↔
      (low ≤ byte.toNat ∧ byte.toNat ≤ high) ∧
        c.toNat / 0x40 ^ count + 0x80 = bits * 0x40 + byte.toNat := by
  -- The next byte of a character is the digit that its code has there, with the mark of digits.
  have lower := pending.lower
  have upper := pending.upper
  have digit : (UInt8.ofNat (c.toNat / 0x40 ^ count % 0x40 + 0x80)).toNat =
      c.toNat / 0x40 ^ count % 0x40 + 0x80 := by
    rw [UInt8.toNat_ofNat']
    omega
  have goesOn : Spans bits count low high c.toNat →
      (part ++ [byte] <+: String.utf8EncodeChar c ↔
        byte.toNat = c.toNat / 0x40 ^ count % 0x40 + 0x80) := by
    intro spans
    rw [pending.spelled c spans, List.prefix_append_right_inj, tailBytes, List.cons_prefix_cons,
      ← UInt8.toNat_inj, digit]
    simp
  constructor
  · intro begins
    have spans := pending.spans_of_begins c ((List.prefix_append part [byte]).trans begins)
    have same := (goesOn spans).mp begins
    rw [Spans] at spans
    omega
  -- Bounds and digit together give the codes that the part spans.
  · rintro ⟨within, same⟩
    have spans : Spans bits count low high c.toNat := by
      rw [Spans]
      omega
    exact (goesOn spans).mpr (by omega)

/-- Between the bounds, every byte goes on some character. -/
theorem Pending.exists_character (pending : Pending part bits count low high)
    (within : low ≤ byte.toNat ∧ byte.toNat ≤ high) :
    ∃ c : Char, c.toNat = (bits * 0x40 + (byte.toNat - 0x80)) * 0x40 ^ count ∧
      part ++ [byte] <+: String.utf8EncodeChar c := by
  have lower := pending.lower
  -- The digits behind the byte may all be zero.
  have quotient : (bits * 0x40 + (byte.toNat - 0x80)) * 0x40 ^ count / 0x40 ^ count =
      bits * 0x40 + (byte.toNat - 0x80) := Nat.mul_div_cancel _ (Nat.pow_pos (by decide))
  have spans : Spans bits count low high ((bits * 0x40 + (byte.toNat - 0x80)) * 0x40 ^ count) := by
    rw [Spans, quotient]
    omega
  have code : (Char.ofNatAux _ (pending.valid _ spans)).toNat =
      (bits * 0x40 + (byte.toNat - 0x80)) * 0x40 ^ count := rfl
  refine ⟨_, code, (pending.append_begins_iff _).mpr ⟨within, ?_⟩⟩
  rw [code, quotient]
  omega

/-- The bytes between the bounds are those that go on some character. -/
theorem Pending.begins_append_iff (pending : Pending part bits count low high) :
    BeginsCharacter (part ++ [byte]) ↔ low ≤ byte.toNat ∧ byte.toNat ≤ high := by
  -- Within the bounds there is a character to go on with, and outside of them there is none.
  constructor
  · rintro ⟨c, begins⟩
    exact ((pending.append_begins_iff c).mp begins).1
  · intro within
    obtain ⟨c, _, begins⟩ := pending.exists_character within
    exact ⟨c, begins⟩

/-- What has been read begins some character. -/
theorem Pending.begins (pending : Pending part bits count low high) : BeginsCharacter part := by
  -- The least byte within the bounds goes on a character.
  have lower := pending.ordered
  have upper := pending.upper
  have within : low ≤ (UInt8.ofNat low).toNat ∧ (UInt8.ofNat low).toNat ≤ high := by
    rw [UInt8.toNat_ofNat']
    omega
  obtain ⟨c, begins⟩ := pending.begins_append_iff.mpr within
  exact ⟨c, (List.prefix_append _ _).trans begins⟩

/-- What has been read is no character in full. -/
theorem Pending.incomplete (pending : Pending part bits count low high) (c : Char) :
    part ≠ String.utf8EncodeChar c := by
  -- A character that the part begins has at least one byte more.
  intro full
  have spans := pending.spans_of_begins c (full ▸ List.prefix_rfl)
  have spelled := pending.spelled c spans
  simp [← full, tailBytes] at spelled

/-- Where nothing goes on what has been read, this is an invalid part. -/
theorem Pending.isInvalidPart (pending : Pending part bits count low high) {rest : Bytes}
    (stops : ∀ next ∈ rest.head?, ¬ (low ≤ next.toNat ∧ next.toNat ≤ high)) :
    IsInvalidPart part rest where
  -- Every condition of an invalid part is known, but that on the next byte, which is given.
  filled := pending.filled
  incomplete := pending.incomplete
  begins := .inl pending.begins
  longest next first begins := stops next first (pending.begins_append_iff.mp begins)

/-- A byte between the bounds is read, and the next one may be any that goes on a character. -/
theorem Pending.next (pending : Pending part bits (count + 1) low high)
    (within : low ≤ byte.toNat ∧ byte.toNat ≤ high) :
    Pending (part ++ [byte]) (bits * 0x40 + (byte.toNat - 0x80)) count 0x80 0xBF := by
  have lower := pending.lower
  have upper := pending.upper
  -- The next digit is the last one of what stands in front of the digits behind it.
  have quotient : ∀ code, code / 0x40 ^ (count + 1) = code / 0x40 ^ count / 0x40 := by
    intro code
    rw [Nat.pow_succ, Nat.div_div_eq_div_mul]
  have spans_iff : ∀ code, Spans (bits * 0x40 + (byte.toNat - 0x80)) count 0x80 0xBF code ↔
      code / 0x40 ^ (count + 1) + 0x80 = bits * 0x40 + byte.toNat := by
    intro code
    rw [Spans, quotient]
    omega
  have wider : ∀ code, Spans (bits * 0x40 + (byte.toNat - 0x80)) count 0x80 0xBF code →
      Spans bits (count + 1) low high code := by
    intro code spans
    have same := (spans_iff code).mp spans
    rw [Spans]
    omega
  refine ⟨by simp, Nat.le_refl _, by decide, Nat.le_refl _, ?_, ?_, ?_⟩
  · intro c begins
    exact (spans_iff _).mpr ((pending.append_begins_iff c).mp begins).2
  · intro c spans
    have same := (spans_iff _).mp spans
    rw [pending.spelled c (wider _ spans), tailBytes, List.append_assoc, List.singleton_append]
    congr 2
    rw [← UInt8.toNat_inj, UInt8.toNat_ofNat']
    omega
  · intro code spans
    exact pending.valid code (wider code spans)

/-- The last byte that is owed completes a character. -/
theorem Pending.last (pending : Pending part bits 0 low high)
    (within : low ≤ byte.toNat ∧ byte.toNat ≤ high) :
    String.utf8EncodeChar (Char.ofNat (bits * 0x40 + (byte.toNat - 0x80))) = part ++ [byte] := by
  obtain ⟨c, code, begins⟩ := pending.exists_character within
  rw [Nat.pow_zero, Nat.mul_one] at code
  rw [← code, Char.ofNat_toNat]
  -- The character has one byte more than the part, and this is all that begins with both.
  have spans := pending.spans_of_begins c ((List.prefix_append part [byte]).trans begins)
  have spelled := pending.spelled c spans
  refine (begins.eq_of_length ?_).symm
  rw [spelled]
  simp [tailBytes]

/-- The mark of two bytes begins the characters with its bits. -/
theorem pending_two {value : Nat} (lower : 0xC2 ≤ value) (upper : value < 0xE0) :
    Pending [UInt8.ofNat value] (value - 0xC0) 0 0x80 0xBF := by
  -- Such a byte is the first one just for codes with its bits in front, and one digit is left.
  refine ⟨by simp, by decide, by decide, by decide, ?_, ?_, ?_⟩
  · intro c begins
    have mark := mark_cases (by omega) begins
    simp only [Spans, Nat.pow_zero, Nat.div_one]
    omega
  · intro c spans
    simp only [Spans, Nat.pow_zero, Nat.div_one] at spans
    have mark : c.toNat / 64 % 0x20 + 0xC0 = value := by omega
    rw [utf8EncodeChar_eq, if_neg (by omega), if_pos (by omega), mark]
    simp [tailBytes]
  · intro code spans
    simp only [Spans, Nat.pow_zero, Nat.div_one] at spans
    exact .inl (by omega)

/-- The mark of three bytes begins the characters with its bits; the bounds of the second byte rule
out shorter spellings and surrogates. -/
theorem pending_three {value : Nat} (lower : 0xE0 ≤ value) (upper : value < 0xF0) :
    Pending [UInt8.ofNat value] (value - 0xE0) 1 (if value = 0xE0 then 0xA0 else 0x80)
      (if value = 0xED then 0x9F else 0xBF) := by
  -- Codes of the right size with these bits are those that the bounds of the second byte allow.
  have spans_iff : ∀ code, Spans (value - 0xE0) 1 (if value = 0xE0 then 0xA0 else 0x80)
      (if value = 0xED then 0x9F else 0xBF) code ↔
        (0x800 ≤ code ∧ (code < 0xD800 ∨ 0xDFFF < code)) ∧ code / 4096 + 0xE0 = value := by
    intro code
    rw [Spans, Nat.pow_one]
    split <;> split <;> omega
  refine ⟨by simp, by split <;> decide, by split <;> split <;> omega, by split <;> decide,
    ?_, ?_, ?_⟩
  · intro c begins
    have valid : c.toNat < 0xD800 ∨ 0xDFFF < c.toNat ∧ c.toNat < 0x110000 := c.valid
    have mark := mark_cases (by omega) begins
    exact (spans_iff _).mpr (by omega)
  · intro c spans
    have range := (spans_iff _).mp spans
    have mark : c.toNat / 4096 % 0x10 + 0xE0 = value := by omega
    rw [utf8EncodeChar_eq, if_neg (by omega), if_neg (by omega), if_pos (by omega), mark]
    simp [tailBytes]
  · intro code spans
    have range := (spans_iff _).mp spans
    rw [Nat.isValidChar]
    omega

/-- The mark of four bytes begins the characters with its bits; the bounds of the second byte rule
out shorter spellings and codes past Unicode. -/
theorem pending_four {value : Nat} (lower : 0xF0 ≤ value) (upper : value ≤ 0xF4) :
    Pending [UInt8.ofNat value] (value - 0xF0) 2 (if value = 0xF0 then 0x90 else 0x80)
      (if value = 0xF4 then 0x8F else 0xBF) := by
  -- Here, too, the bounds of the second byte allow just the codes of the right size.
  have spans_iff : ∀ code, Spans (value - 0xF0) 2 (if value = 0xF0 then 0x90 else 0x80)
      (if value = 0xF4 then 0x8F else 0xBF) code ↔
        (0x10000 ≤ code ∧ code < 0x110000) ∧ code / 262144 + 0xF0 = value := by
    intro code
    have square : 0x40 ^ 2 = 4096 := rfl
    rw [Spans, square]
    split <;> split <;> omega
  refine ⟨by simp, by split <;> decide, by split <;> split <;> omega, by split <;> decide,
    ?_, ?_, ?_⟩
  · intro c begins
    have mark := mark_cases (by omega) begins
    exact (spans_iff _).mpr (by omega)
  · intro c spans
    have range := (spans_iff _).mp spans
    have mark : c.toNat / 262144 % 0x08 + 0xF0 = value := by omega
    rw [utf8EncodeChar_eq, if_neg (by omega), if_neg (by omega), if_neg (by omega), mark]
    simp [tailBytes]
  · intro code spans
    have range := (spans_iff _).mp spans
    rw [Nat.isValidChar]
    omega

/-- A byte that is no mark is an invalid part. -/
theorem isInvalidPart_no_mark {value : Nat} (small : value < 256)
    (outside : 0x80 ≤ value ∧ value < 0xC2 ∨ 0xF4 < value) (rest : Bytes) :
    IsInvalidPart [UInt8.ofNat value] rest := by
  -- The first bytes of characters are told by their marks, and this is none of them.
  have none : ¬ BeginsCharacter [UInt8.ofNat value] := by
    rintro ⟨c, begins⟩
    have mark := mark_cases small begins
    omega
  refine ⟨by simp, ?_, .inr rfl, ?_⟩
  · intro c whole
    exact none ⟨c, whole ▸ List.prefix_rfl⟩
  · intro next _ begins
    exact none (begins.of_isPrefix (List.prefix_append _ _))

/-- A byte that is no mark is replaced by itself. -/
theorem next_no_mark {value : Nat} (small : value < 256)
    (outside : 0x80 ≤ value ∧ value < 0xC2 ∨ 0xF4 < value) :
    start.next (UInt8.ofNat value) = ([replacement], start) := by
  -- Each test for a mark fails in turn.
  rw [next, first, UInt8.toNat_ofNat_of_lt' small]
  rcases outside with ⟨lower, upper⟩ | past
  · rw [if_neg (by omega), if_pos upper]
  · simp only [show ¬ value < 0x80 by omega, show ¬ value < 0xC2 by omega,
      show ¬ value < 0xE0 by omega, show ¬ value = 0xE0 by omega, show ¬ value = 0xED by omega,
      show ¬ value < 0xF0 by omega, show ¬ value = 0xF0 by omega, show ¬ value < 0xF4 by omega,
      show ¬ value = 0xF4 by omega, if_false]

variable {bytes : Bytes}

/-- Between characters, a byte is decoded in front of what comes of the others. -/
private theorem isLossyText_decode_cons (fresh : IsLossyText bytes (start.decode bytes))
    (owed : ∀ {part : Bytes} {bits count low high : Nat}, Pending part bits count low high →
      IsLossyText (part ++ bytes) ((owing bits (count + 1) low high).decode bytes))
    (byte : UInt8) : IsLossyText (byte :: bytes) (start.decode (byte :: bytes)) := by
  obtain ⟨value, small, rfl⟩ : ∃ value, value < 256 ∧ byte = UInt8.ofNat value :=
    ⟨byte.toNat, byte.toNat_lt, UInt8.ofNat_toNat.symm⟩
  rw [decode_cons]
  -- The cases are the lengths of characters, with the bytes that begin none behind the first.
  rcases Nat.lt_or_ge value 0x80 with ascii | past
  · have code : (Char.ofUInt8 (UInt8.ofNat value)).toNat = value := UInt8.toNat_ofNat_of_lt' small
    have whole := utf8EncodeChar_ofUInt8 (UInt8.lt_iff_toNat_lt.mpr (code.symm ▸ ascii))
    have character := IsLossyText.character (.ofUInt8 (UInt8.ofNat value)) fresh
    rw [whole, ← Char.ofNat_toNat (Char.ofUInt8 _), code] at character
    rw [next_single ascii]
    exact character
  by_cases outside : 0x80 ≤ value ∧ value < 0xC2 ∨ 0xF4 < value
  · rw [next_no_mark small outside]
    exact .invalid (isInvalidPart_no_mark small outside bytes) fresh
  rcases Nat.lt_or_ge value 0xE0 with two | more
  · rw [next_two (by omega) two]
    exact owed (pending_two (by omega) two)
  rcases Nat.lt_or_ge value 0xF0 with three | four
  · rw [next_three more three]
    exact owed (pending_three more three)
  · rw [next_four four (by omega)]
    exact owed (pending_four four (by omega))

/-- Decoding leaves a lossy text, and so it does from what is read of a character. -/
theorem isLossyText_decode (bytes : Bytes) :
    IsLossyText bytes (start.decode bytes) ∧
      ∀ {part : Bytes} {bits count low high : Nat}, Pending part bits count low high →
        IsLossyText (part ++ bytes) ((owing bits (count + 1) low high).decode bytes) := by
  induction bytes with
  | nil =>
    refine ⟨.nil, fun pending => ?_⟩
    exact .invalid (pending.isInvalidPart (by simp)) .nil
  | cons byte bytes ih =>
    obtain ⟨fresh, owed⟩ := ih
    have anew := isLossyText_decode_cons fresh owed byte
    refine ⟨anew, fun {part bits count low high} pending => ?_⟩
    rw [decode_cons, Utf8State.next]
    by_cases within : low ≤ byte.toNat ∧ byte.toNat ≤ high
    · rw [if_pos within]
      cases count with
      | zero =>
        have whole := IsLossyText.character (.ofNat (bits * 0x40 + (byte.toNat - 0x80))) fresh
        rw [pending.last within, List.append_assoc] at whole
        exact whole
      | succ count =>
        have later := owed (pending.next within)
        rw [List.append_assoc] at later
        exact later
    · -- The byte ends what is read, and is looked at anew.
      rw [if_neg within]
      exact .invalid (pending.isInvalidPart (by simpa using within)) anew

end Utf8State

variable {bytes : Bytes} {text : List Char}

/-- Lossy decoding puts one replacement for each longest invalid part, and nothing else does. -/
theorem isLossyText_iff : IsLossyText bytes text ↔ text = utf8Lossy bytes := by
  -- Decoding gives such a text, and there is only one for the bytes.
  have decoded := (Utf8State.isLossyText_decode bytes).1
  refine ⟨fun lossy => lossy.unique decoded, ?_⟩
  rintro rfl
  exact decoded

/-- A text between bytes is decoded as it is, apart from what is before it and behind it. -/
theorem utf8Lossy_append_utf8Encode (front back : Bytes) (filled : text ≠ []) :
    utf8Lossy (front ++ utf8Encode text ++ back) = utf8Lossy front ++ text ++ utf8Lossy back := by
  -- The first character ends what is before it, and the others follow from character to character.
  have behind : ∀ text, IsLossyText (utf8Encode text ++ back) (text ++ utf8Lossy back) := by
    intro text
    induction text with
    | nil => exact isLossyText_iff.mpr rfl
    | cons c text ih =>
      rw [utf8Encode, List.flatMap_cons, List.append_assoc]
      exact .character c ih
  obtain ⟨c, text, rfl⟩ := List.exists_cons_of_ne_nil filled
  have before : IsLossyText front (utf8Lossy front) := isLossyText_iff.mpr rfl
  have whole := isLossyText_iff.mp (before.append_character c (behind text))
  rw [utf8Encode, List.flatMap_cons, ← utf8Encode]
  simpa using whole.symm

/-- An ASCII byte is decoded to its character, apart from what is before it and behind it. -/
theorem utf8Lossy_append_ascii (front back : Bytes) {byte : UInt8} (ascii : byte < 0x80) :
    utf8Lossy (front ++ [byte] ++ back) =
      utf8Lossy front ++ [.ofUInt8 byte] ++ utf8Lossy back := by
  -- The byte is a character of its own, encoded.
  have whole := @utf8Lossy_append_utf8Encode [.ofUInt8 byte] front back (by simp)
  rwa [utf8Encode, List.flatMap_singleton, utf8EncodeChar_ofUInt8 ascii] at whole

/-- The ASCII characters of a decoded text are the ASCII bytes, in order. -/
theorem filter_ascii_utf8Lossy (bytes : Bytes) :
    (utf8Lossy bytes).filter (·.toNat < 0x80) = (bytes.filter (· < 0x80)).map .ofUInt8 :=
  -- What holds for every such text holds for the one that is decoded.
  (isLossyText_iff.mpr rfl).filter_ascii

end Stocktake
