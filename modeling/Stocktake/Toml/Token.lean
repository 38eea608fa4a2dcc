import Stocktake.Text.Recogniser
import Stocktake.Toml.Quoted

/-! The tokens of a TOML document: punctuation, blanks, quoted texts and words. -/

namespace Stocktake.Toml

/-- A token; whether a word or a quoted text is well formed shows only where it is used. -/
inductive Token
  | dot
  | equals
  | comma
  | openArray
  | closeArray
  | openTable
  | closeTable
  | newline
  | comment
  | blank (text : List Char)
  | quoted (text : QuotedText)
  | word (text : List Char)
  deriving DecidableEq, Repr

/-- The punctuation marks. -/
def marks : List (Char × Token) :=
  [('.', .dot), ('=', .equals), (',', .comma), ('[', .openArray), (']', .closeArray),
    ('\x7b', .openTable), ('\x7d', .closeTable)]

/-- The token of a punctuation mark. -/
def mark? (c : Char) : Option Token :=
  (marks.find? (·.1 == c)).map Prod.snd

/-- A character ends a word unless it can be part of one. -/
def endsWord (c : Char) : Bool :=
  isSpace c || c == '\n' || c == '\r' || c == '#' || (mark? c).isSome

/-- A line ends with a line feed, which a carriage return may precede. -/
def lineEnd? : List Char → Option (List Char)
  | '\n' :: rest => some rest
  | '\r' :: '\n' :: rest => some rest
  | _ => none

/-- A comment goes up to the end of its line, and holds no control character. -/
def comment? (text : List Char) : Option (Token × List Char) :=
  let ends := fun c => c == '\n' || c == '\r'
  if (text.takeWhile (!ends ·)).any isForbidden then none
  else some (.comment, text.dropWhile (!ends ·))

/-- Reads a token that stands for itself: a mark, a comment or a run of blanks. -/
def separator? (c : Char) (text : List Char) : Option (Token × List Char) :=
  if c == '#' then comment? text
  else if isSpace c then some (.blank (c :: text.takeWhile isSpace), text.dropWhile isSpace)
  else (mark? c).map fun token => (token, text)

/-- Reads a token; only a comment or a carriage return can be out of place wherever it stands. -/
def token? (text : List Char) : Option (Token × List Char) :=
  match text with
  | [] => none
  | c :: rest =>
    if c == '\n' || c == '\r' then (lineEnd? text).map fun rest => (.newline, rest)
    else if c == '\x22' || c == '\x27' then
      (quotedText? text).map fun (quoted, rest) => (.quoted quoted, rest)
    else if endsWord c then separator? c rest
    else some (.word (c :: rest.takeWhile (!endsWord ·)), rest.dropWhile (!endsWord ·))

/-- A line end takes up room. -/
theorem lineEnd?_shorter {text rest : List Char} (read : lineEnd? text = some rest) :
    rest.length < text.length := by
  -- A line ends in one character or in two.
  unfold lineEnd? at read
  split at read
  · rw [← Option.some.inj read]
    exact Nat.lt_succ_self _
  · rw [← Option.some.inj read]
    simp only [List.length_cons]
    omega
  · simp at read

/-- What stands behind a separator is no longer than what stood behind its first character. -/
theorem separator?_le {c : Char} {text rest : List Char} {token : Token}
    (read : separator? c text = some (token, rest)) : rest.length ≤ text.length := by
  -- A comment or a run of blanks drops characters, and other marks are a single one.
  unfold separator? at read
  split at read
  · unfold comment? at read
    dsimp only at read
    split at read
    · simp at read
    · simp only [Option.some.injEq, Prod.mk.injEq] at read
      rw [← read.2]
      exact (List.dropWhile_sublist _).length_le
  · split at read
    · simp only [Option.some.injEq, Prod.mk.injEq] at read
      rw [← read.2]
      exact (List.dropWhile_sublist _).length_le
    · simp only [Option.map_eq_some_iff, Prod.mk.injEq] at read
      obtain ⟨_, _, _, same⟩ := read
      simp [same]

/-- A token takes up room. -/
theorem token?_shorter {text rest : List Char} {token : Token}
    (read : token? text = some (token, rest)) : rest.length < text.length := by
  -- The first character belongs to the token, and what follows it never grows.
  unfold token? at read
  split at read
  · simp at read
  · rename_i c behind
    split at read
    · simp only [Option.map_eq_some_iff, Prod.mk.injEq] at read
      obtain ⟨_, ended, _, rfl⟩ := read
      exact lineEnd?_shorter ended
    · split at read
      · simp only [Option.map_eq_some_iff, Prod.mk.injEq] at read
        obtain ⟨_, quoted, _, rfl⟩ := read
        exact quotedText?_shorter quoted
      · split at read
        · have := separator?_le read
          simp only [List.length_cons]
          omega
        · simp only [Option.some.injEq, Prod.mk.injEq] at read
          have := (List.dropWhile_sublist (!endsWord ·) (l := behind)).length_le
          rw [← read.2, List.length_cons]
          omega

/-- Recognises tokens. -/
def tokenRecogniser : Recogniser Token where
  front? := token?
  shorter := token?_shorter

/-- The tokens of a text, none when some part of it is no token. -/
def tokens? (text : List Char) : Option (List Token) :=
  tokenRecogniser.readAll? text

end Stocktake.Toml
