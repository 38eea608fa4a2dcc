/-! UTF-8: the bytes of a text, and the text of bytes with what is invalid replaced. -/

namespace Stocktake

/-- A sequence of bytes, such as the content of a file. -/
abbrev Bytes := List UInt8

/-- The UTF-8 bytes of a text. -/
def utf8Encode (text : List Char) : Bytes :=
  text.flatMap String.utf8EncodeChar

/-- What stands in a decoded text for bytes that are no UTF-8. -/
def replacement : Char :=
  '\ufffd'

/-- Where a decoder stands between two bytes. -/
inductive Utf8State
  /-- Between characters. -/
  | start
  /-- Inside a character: its bits so far, the bytes still owed, and the bounds of the next one. -/
  | owing (bits : Nat) (owed : Nat) (low high : Nat)
  deriving DecidableEq, Repr

namespace Utf8State

/-- Takes the first byte of a character and yields what it completes. -/
def first (byte : UInt8) : List Char × Utf8State :=
  let n := byte.toNat
  -- The second byte is bounded so that no character has two encodings and none is a surrogate.
  if n < 0x80 then ([Char.ofNat n], start)
  else if n < 0xC2 then ([replacement], start)
  else if n < 0xE0 then ([], owing (n - 0xC0) 1 0x80 0xBF)
  else if n = 0xE0 then ([], owing 0 2 0xA0 0xBF)
  else if n = 0xED then ([], owing 0xD 2 0x80 0x9F)
  else if n < 0xF0 then ([], owing (n - 0xE0) 2 0x80 0xBF)
  else if n = 0xF0 then ([], owing 0 3 0x90 0xBF)
  else if n < 0xF4 then ([], owing (n - 0xF0) 3 0x80 0xBF)
  else if n = 0xF4 then ([], owing 4 3 0x80 0x8F)
  else ([replacement], start)

/-- Takes one byte; a byte that cannot go on a character ends it as invalid and begins a new one. -/
def next (state : Utf8State) (byte : UInt8) : List Char × Utf8State :=
  match state with
  | start => first byte
  | owing bits owed low high =>
    if low ≤ byte.toNat ∧ byte.toNat ≤ high then
      let bits := bits * 0x40 + (byte.toNat - 0x80)
      if owed ≤ 1 then ([Char.ofNat bits], start)
      else ([], owing bits (owed - 1) 0x80 0xBF)
    else (replacement :: (first byte).1, (first byte).2)

/-- What is still to be written when the bytes end. -/
def flush : Utf8State → List Char
  | start => []
  | owing .. => [replacement]

/-- Decodes bytes from a state on. -/
def decode (state : Utf8State) : Bytes → List Char
  | [] => state.flush
  | byte :: bytes => (state.next byte).1 ++ decode (state.next byte).2 bytes

end Utf8State

/-- The text of a sequence of bytes, with each longest invalid part replaced by one character. -/
def utf8Lossy (bytes : Bytes) : List Char :=
  Utf8State.start.decode bytes

/-- The text of a sequence of bytes that is UTF-8: the text it decodes to has those very bytes. -/
def utf8Decode? (bytes : Bytes) : Option (List Char) :=
  let text := utf8Lossy bytes
  if utf8Encode text = bytes then some text else none

end Stocktake
