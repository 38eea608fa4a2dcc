import Stocktake.Text.Utf8

/-! UTF-8 loses nothing: texts read back from their bytes, which have the order of the texts. -/

namespace Stocktake

/-- A character is no surrogate and within Unicode. -/
private theorem toNat_valid (c : Char) : c.toNat < 0xD800 ∨ 0xDFFF < c.toNat ∧ c.toNat < 0x110000 :=
  -- Characters are valid by their type.
  c.valid

/-- The bytes of a character are the digits of its code to the base 64, with marks. -/
theorem utf8EncodeChar_eq (c : Char) :
    String.utf8EncodeChar c =
      if c.toNat ≤ 0x7F then [UInt8.ofNat c.toNat]
      else if c.toNat ≤ 0x7FF then
        [UInt8.ofNat (c.toNat / 64 % 0x20 + 0xC0), UInt8.ofNat (c.toNat % 0x40 + 0x80)]
      else if c.toNat ≤ 0xFFFF then
        [UInt8.ofNat (c.toNat / 4096 % 0x10 + 0xE0), UInt8.ofNat (c.toNat / 64 % 0x40 + 0x80),
          UInt8.ofNat (c.toNat % 0x40 + 0x80)]
      else
        [UInt8.ofNat (c.toNat / 262144 % 0x08 + 0xF0), UInt8.ofNat (c.toNat / 4096 % 0x40 + 0x80),
          UInt8.ofNat (c.toNat / 64 % 0x40 + 0x80), UInt8.ofNat (c.toNat % 0x40 + 0x80)] :=
  -- The encoding of the library computes with the same digits.
  rfl

namespace Utf8State

/-- What comes of a byte stands before what comes of those behind it. -/
theorem decode_cons (state : Utf8State) (byte : UInt8) (bytes : Bytes) :
    state.decode (byte :: bytes) = (state.next byte).1 ++ (state.next byte).2.decode bytes :=
  -- The decoding takes the bytes from the front.
  rfl

/-- A byte of ASCII is a character by itself. -/
theorem next_single {value : Nat} (small : value < 0x80) :
    start.next (UInt8.ofNat value) = ([Char.ofNat value], start) := by
  -- No further byte is owed.
  rw [next, first, UInt8.toNat_ofNat_of_lt' (show _ < 256 by omega), if_pos small]

/-- The mark of two bytes leaves one owed. -/
theorem next_two {value : Nat} (lower : 0xC2 ≤ value) (upper : value < 0xE0) :
    start.next (UInt8.ofNat value) = ([], owing (value - 0xC0) 1 0x80 0xBF) := by
  -- The value is too great for the other marks, and within the bounds of this one.
  rw [next, first, UInt8.toNat_ofNat_of_lt' (show _ < 256 by omega)]
  simp only [show ¬ value < 0x80 by omega, show ¬ value < 0xC2 by omega, upper, if_true, if_false]

/-- The mark of three bytes leaves two owed. -/
theorem next_three {value : Nat} (lower : 0xE0 ≤ value) (upper : value < 0xF0) :
    start.next (UInt8.ofNat value) =
      ([], owing (value - 0xE0) 2 (if value = 0xE0 then 0xA0 else 0x80)
        (if value = 0xED then 0x9F else 0xBF)) := by
  -- The mark of three bytes; the second one rules out shorter spellings and surrogates.
  rw [next, first, UInt8.toNat_ofNat_of_lt' (show _ < 256 by omega)]
  simp only [show ¬ value < 0x80 by omega, show ¬ value < 0xC2 by omega,
    show ¬ value < 0xE0 by omega, upper, if_true, if_false]
  by_cases shortest : value = 0xE0
  · subst shortest
    rfl
  by_cases surrogate : value = 0xED
  · subst surrogate
    rfl
  simp only [shortest, surrogate, if_false]

/-- The mark of four bytes leaves three owed. -/
theorem next_four {value : Nat} (lower : 0xF0 ≤ value) (upper : value ≤ 0xF4) :
    start.next (UInt8.ofNat value) =
      ([], owing (value - 0xF0) 3 (if value = 0xF0 then 0x90 else 0x80)
        (if value = 0xF4 then 0x8F else 0xBF)) := by
  -- The mark of four bytes; the second one rules out shorter spellings and codes past Unicode.
  rw [next, first, UInt8.toNat_ofNat_of_lt' (show _ < 256 by omega)]
  simp only [show ¬ value < 0x80 by omega, show ¬ value < 0xC2 by omega,
    show ¬ value < 0xE0 by omega, show ¬ value = 0xE0 by omega, show ¬ value = 0xED by omega,
    show ¬ value < 0xF0 by omega, if_false]
  by_cases shortest : value = 0xF0
  · subst shortest
    rfl
  by_cases last : value = 0xF4
  · subst last
    rfl
  simp only [shortest, last, show value < 0xF4 by omega, if_true, if_false]

/-- A byte within its bounds adds a digit, and leaves one byte fewer owed. -/
private theorem next_inner {bits owed low high value : Nat} (small : value < 256)
    (lower : low ≤ value) (upper : value ≤ high) :
    next (owing bits (owed + 2) low high) (UInt8.ofNat value) =
      ([], owing (bits * 0x40 + (value - 0x80)) (owed + 1) 0x80 0xBF) := by
  -- More than one byte was owed, so the character is not complete.
  rw [next, UInt8.toNat_ofNat_of_lt' small, if_pos ⟨lower, upper⟩]
  exact if_neg (by omega)

/-- The last byte within its bounds completes a character. -/
private theorem next_last {bits low high value : Nat} (small : value < 256) (lower : low ≤ value)
    (upper : value ≤ high) :
    next (owing bits 1 low high) (UInt8.ofNat value) =
      ([Char.ofNat (bits * 0x40 + (value - 0x80))], start) := by
  -- One byte was owed.
  rw [next, UInt8.toNat_ofNat_of_lt' small, if_pos ⟨lower, upper⟩]
  rfl

/-- The bytes of a character read back as that character, whatever stands behind them. -/
theorem decode_utf8EncodeChar (c : Char) (bytes : Bytes) :
    start.decode (String.utf8EncodeChar c ++ bytes) = c :: start.decode bytes := by
  have valid := toNat_valid c
  have code : Char.ofNat c.toNat = c := Char.ofNat_toNat c
  rw [utf8EncodeChar_eq]
  generalize c.toNat = n at *
  -- The cases are the numbers of bytes, and the digits add up to the code again.
  split
  · rw [List.singleton_append, decode_cons, next_single (by omega), code]
    rfl
  split
  · have sum : (n / 64 % 32 + 192 - 192) * 64 + (n % 64 + 128 - 128) = n := by omega
    rw [List.cons_append, List.singleton_append, decode_cons, next_two (by omega) (by omega),
      decode_cons, next_last (by omega) (by omega) (by omega), sum, code]
    rfl
  split
  · have sum : ((n / 4096 % 16 + 224 - 224) * 64 + (n / 64 % 64 + 128 - 128)) * 64 +
        (n % 64 + 128 - 128) = n := by omega
    rw [List.cons_append, List.cons_append, List.singleton_append, decode_cons,
      next_three (by omega) (by omega), decode_cons,
      next_inner (by omega) (by split <;> omega) (by split <;> omega), decode_cons,
      next_last (by omega) (by omega) (by omega), sum, code]
    rfl
  · have sum : (((n / 262144 % 8 + 240 - 240) * 64 + (n / 4096 % 64 + 128 - 128)) * 64 +
        (n / 64 % 64 + 128 - 128)) * 64 + (n % 64 + 128 - 128) = n := by omega
    rw [List.cons_append, List.cons_append, List.cons_append, List.singleton_append, decode_cons,
      next_four (by omega) (by omega), decode_cons,
      next_inner (by omega) (by split <;> omega) (by split <;> omega), decode_cons,
      next_inner (by omega) (by omega) (by omega), decode_cons,
      next_last (by omega) (by omega) (by omega), sum, code]
    rfl

end Utf8State

/-- A text reads back from its bytes with nothing replaced. -/
theorem utf8Lossy_utf8Encode (text : List Char) : utf8Lossy (utf8Encode text) = text := by
  -- Each character is decoded in full before the next one begins.
  induction text with
  | nil => rfl
  | cons c text ih =>
    have step := Utf8State.decode_utf8EncodeChar c (utf8Encode text)
    rw [utf8Lossy] at ih
    rw [utf8Lossy, utf8Encode, List.flatMap_cons, ← utf8Encode, step, ih]

/-- The bytes of a text are accepted as that text. -/
theorem utf8Decode?_utf8Encode (text : List Char) : utf8Decode? (utf8Encode text) = some text := by
  -- A text is accepted when decoding and encoding it gives the same bytes.
  simp only [utf8Decode?, utf8Lossy_utf8Encode, if_true]

/-- Byte sequences are ordered by the first byte in which they differ. -/
def compareBytes (one other : Bytes) : Ordering :=
  List.compareLex (fun byte another => compare byte.toNat another.toNat) one other

/-- Texts are ordered by the first code in which they differ. -/
def compareCodes (one other : List Char) : Ordering :=
  List.compareLex (fun c d => compare c.toNat d.toNat) one other

/-- A smaller byte in front decides. -/
private theorem compareBytes_of_lt {a b : Nat} (less : a < b) (small : b < 256)
    (one other : Bytes) :
    compareBytes (UInt8.ofNat a :: one) (UInt8.ofNat b :: other) = .lt := by
  -- Bytes are compared from the front.
  rw [compareBytes, List.compareLex_cons_cons, UInt8.toNat_ofNat_of_lt' (Nat.lt_trans less small),
    UInt8.toNat_ofNat_of_lt' small, Nat.compare_eq_lt.mpr less]
  rfl

/-- Equal first bytes do not decide. -/
private theorem compareBytes_cons (byte : UInt8) (one other : Bytes) :
    compareBytes (byte :: one) (byte :: other) = compareBytes one other := by
  -- The comparison goes on behind bytes that are equal.
  rw [compareBytes, List.compareLex_cons_cons, Nat.compare_eq_eq.mpr rfl]
  rfl

/-- Equal bytes in front do not decide. -/
private theorem compareBytes_append (front one other : Bytes) :
    compareBytes (front ++ one) (front ++ other) = compareBytes one other := by
  -- The equal bytes are passed over one by one.
  induction front with
  | nil => rfl
  | cons byte front ih => rw [List.cons_append, List.cons_append, compareBytes_cons, ih]

/-- The bytes of a smaller code come first, whatever stands behind them. -/
theorem compareBytes_utf8EncodeChar {c d : Char} (less : c.toNat < d.toNat) (one other : Bytes) :
    compareBytes (String.utf8EncodeChar c ++ one) (String.utf8EncodeChar d ++ other) = .lt := by
  have bound := toNat_valid d
  rw [utf8EncodeChar_eq c, utf8EncodeChar_eq d]
  generalize c.toNat = n at *
  generalize d.toNat = m at *
  -- Of two lengths the shorter has the smaller mark, and of one length the digits decide.
  split
  · split
    · exact compareBytes_of_lt less (by omega) _ _
    split
    · exact compareBytes_of_lt (by omega) (by omega) _ _
    split <;> exact compareBytes_of_lt (by omega) (by omega) _ _
  split
  · rw [if_neg (by omega)]
    split
    · by_cases first : n / 64 % 32 = m / 64 % 32
      · simp only [first, List.cons_append, compareBytes_cons]
        exact compareBytes_of_lt (by omega) (by omega) _ _
      · exact compareBytes_of_lt (by omega) (by omega) _ _
    split <;> exact compareBytes_of_lt (by omega) (by omega) _ _
  split
  · rw [if_neg (by omega), if_neg (by omega)]
    split
    · by_cases first : n / 4096 % 16 = m / 4096 % 16
      · by_cases second : n / 64 % 64 = m / 64 % 64
        · simp only [first, second, List.cons_append, compareBytes_cons]
          exact compareBytes_of_lt (by omega) (by omega) _ _
        · simp only [first, List.cons_append, compareBytes_cons]
          exact compareBytes_of_lt (by omega) (by omega) _ _
      · exact compareBytes_of_lt (by omega) (by omega) _ _
    · exact compareBytes_of_lt (by omega) (by omega) _ _
  · rw [if_neg (by omega), if_neg (by omega), if_neg (by omega)]
    by_cases first : n / 262144 % 8 = m / 262144 % 8
    · by_cases second : n / 4096 % 64 = m / 4096 % 64
      · by_cases third : n / 64 % 64 = m / 64 % 64
        · simp only [first, second, third, List.cons_append, compareBytes_cons]
          exact compareBytes_of_lt (by omega) (by omega) _ _
        · simp only [first, second, List.cons_append, compareBytes_cons]
          exact compareBytes_of_lt (by omega) (by omega) _ _
      · simp only [first, List.cons_append, compareBytes_cons]
        exact compareBytes_of_lt (by omega) (by omega) _ _
    · exact compareBytes_of_lt (by omega) (by omega) _ _

/-- Texts of bytes compare the other way when they are exchanged. -/
instance : Std.OrientedCmp compareBytes :=
  inferInstanceAs (Std.OrientedCmp (List.compareLex (compareOn UInt8.toNat)))

/-- The bytes of texts have the order of the codes of these texts. -/
theorem compareBytes_utf8Encode (one other : List Char) :
    compareBytes (utf8Encode one) (utf8Encode other) = compareCodes one other := by
  induction one generalizing other with
  | nil =>
    cases other with
    | nil => rfl
    | cons d other =>
      -- A character has at least one byte.
      cases bytes : utf8Encode (d :: other) with
      | nil => simp [utf8Encode] at bytes
      | cons byte rest => rfl
  | cons c one ih =>
    cases other with
    | nil =>
      cases bytes : utf8Encode (c :: one) with
      | nil => simp [utf8Encode] at bytes
      | cons byte rest => rfl
    | cons d other =>
      rw [compareCodes, List.compareLex_cons_cons, utf8Encode, utf8Encode, List.flatMap_cons,
        List.flatMap_cons, ← utf8Encode, ← utf8Encode]
      rcases Nat.lt_trichotomy c.toNat d.toNat with less | same | greater
      · rw [compareBytes_utf8EncodeChar less, Nat.compare_eq_lt.mpr less]
        rfl
      · have equal : c = d := Char.toNat_inj.mp same
        subst equal
        rw [compareBytes_append, ih other, Nat.compare_eq_eq.mpr rfl]
        rfl
      · have behind := compareBytes_utf8EncodeChar greater (utf8Encode other) (utf8Encode one)
        have flipped : ∀ one other : Bytes,
            compareBytes one other = (compareBytes other one).swap :=
          fun _ _ => Std.OrientedCmp.eq_swap
        rw [flipped, behind, Nat.compare_eq_gt.mpr greater]
        rfl

end Stocktake
