import Stocktake.Json.Value
import Stocktake.Text.Recogniser

/-! The tokens of a JSON text: punctuation, words, numbers and strings, with blanks between them. -/

namespace Stocktake.Json

/-- A token is a punctuation mark or a value without parts. -/
inductive Token
  | openArray
  | closeArray
  | openObject
  | closeObject
  | comma
  | colon
  | null
  | bool (truth : Bool)
  | natural (n : Nat)
  | numeral (literal : String)
  | string (text : Text)
  deriving DecidableEq, Repr

/-- The value of a hexadecimal digit. -/
def hexValue? (c : Char) : Option Nat :=
  if c.isDigit then some (c.toNat - '0'.toNat)
  else if 'a' ≤ c ∧ c ≤ 'f' then some (c.toNat - 'a'.toNat + 10)
  else if 'A' ≤ c ∧ c ≤ 'F' then some (c.toNat - 'A'.toNat + 10)
  else none

/-- The code unit that four hexadecimal digits spell. -/
def codeUnit? (a b c d : Char) : Option Nat := do
  return ((← hexValue? a) * 16 + (← hexValue? b)) * 256 + (← hexValue? c) * 16 + (← hexValue? d)

/-- The character that a short escape stands for. -/
def shortEscape? (c : Char) : Option Char :=
  if c == '\x22' || c == '\\' || c == '/' then some c
  else if c == 'b' then some '\x08'
  else if c == 'f' then some '\x0c'
  else if c == 'n' then some '\n'
  else if c == 'r' then some '\r'
  else if c == 't' then some '\t'
  else none

/-- Reads the code points of a string behind its opening quote; surrogates are left as they are. -/
def codePoints? : List Char → Option (List Nat × List Char)
  | '\x22' :: rest => some ([], rest)
  | '\\' :: 'u' :: a :: b :: c :: d :: rest => do
    let unit ← codeUnit? a b c d
    let (more, rest) ← codePoints? rest
    return (unit :: more, rest)
  | '\\' :: c :: rest => do
    let plain ← shortEscape? c
    let (more, rest) ← codePoints? rest
    return (plain.toNat :: more, rest)
  | c :: rest =>
    -- A control character has to be escaped.
    if c.toNat < 0x20 then none
    else do
      let (more, rest) ← codePoints? rest
      return (c.toNat :: more, rest)
  | [] => none

/-- The text of a sequence of code points, in which surrogates have to come in pairs. -/
def pairSurrogates? : List Nat → Option (List Char)
  | [] => some []
  | [code] => if 0xD800 ≤ code ∧ code < 0xE000 then none else some [Char.ofNat code]
  | code :: next :: codes =>
    if 0xD800 ≤ code ∧ code < 0xDC00 then
      if 0xDC00 ≤ next ∧ next < 0xE000 then
        (pairSurrogates? codes).map
          (Char.ofNat (0x10000 + (code - 0xD800) * 0x400 + (next - 0xDC00)) :: ·)
      else none
    else if 0xDC00 ≤ code ∧ code < 0xE000 then none
    else (pairSurrogates? (next :: codes)).map (Char.ofNat code :: ·)

/-- Reads at least one digit. -/
def digits? (text : List Char) : Option (List Char × List Char) :=
  match text.takeWhile Char.isDigit with
  | [] => none
  | digits => some (digits, text.dropWhile Char.isDigit)

/-- Reads the digits before the point, which begin with zero only when they are a zero alone. -/
def wholeDigits? (text : List Char) : Option (List Char × List Char) :=
  match digits? text with
  | some ('0' :: _ :: _, _) => none
  | read => read

/-- Reads the point and the digits behind it, when there is a point. -/
def fraction? : List Char → Option (List Char × List Char)
  | '.' :: text => (digits? text).map fun (digits, rest) => ('.' :: digits, rest)
  | text => some ([], text)

/-- Reads the sign of an exponent, when there is one. -/
def exponentSign : List Char → List Char × List Char
  | '+' :: text => (['+'], text)
  | '-' :: text => (['-'], text)
  | text => ([], text)

/-- Reads the exponent, when there is one. -/
def exponent? : List Char → Option (List Char × List Char)
  | [] => some ([], [])
  | c :: text =>
    if c == 'e' || c == 'E' then
      let (sign, text) := exponentSign text
      (digits? text).map fun (digits, rest) => (c :: sign ++ digits, rest)
    else some ([], c :: text)

/-- Reads a number without its sign: its digits, what stands behind them, and the rest. -/
def unsigned? (text : List Char) : Option ((List Char × List Char) × List Char) := do
  let (whole, text) ← wholeDigits? text
  let (fraction, text) ← fraction? text
  let (exponent, rest) ← exponent? text
  return ((whole, fraction ++ exponent), rest)

/-- Reads a number. -/
def number? : List Char → Option (Token × List Char)
  | '-' :: text => do
    let ((whole, behind), rest) ← unsigned? text
    return (.numeral (String.ofList ('-' :: whole ++ behind)), rest)
  | text => do
    let ((whole, behind), rest) ← unsigned? text
    -- Digits alone are a natural number, whatever their count.
    if behind.isEmpty then return (.natural (Nat.ofDigitChars 10 whole 0), rest)
    else return (.numeral (String.ofList (whole ++ behind)), rest)

/-- The words that are values. -/
def words : List (String × Token) :=
  [("null", .null), ("true", .bool true), ("false", .bool false)]

/-- Reads one of the words that are values. -/
def word? (text : List Char) : Option (Token × List Char) :=
  words.findSome? fun (spelling, token) =>
    (spelling.toList.isPrefixOf? text).map fun rest => (token, rest)

/-- A blank of JSON text: space, tab, line feed or carriage return. -/
def isSpace (c : Char) : Bool :=
  c == ' ' || c == '\t' || c == '\n' || c == '\r'

/-- Reads a token, or a blank, which is none. -/
def token? : List Char → Option (Option Token × List Char)
  | [] => none
  | c :: rest =>
    if isSpace c then some (none, rest)
    else if c == '[' then some (some .openArray, rest)
    else if c == ']' then some (some .closeArray, rest)
    else if c == '\x7b' then some (some .openObject, rest)
    else if c == '\x7d' then some (some .closeObject, rest)
    else if c == ',' then some (some .comma, rest)
    else if c == ':' then some (some .colon, rest)
    else if c == '\x22' then
      (codePoints? rest).map fun (codes, rest) =>
        (some (.string ((pairSurrogates? codes).map String.ofList)), rest)
    else ((number? (c :: rest)).or (word? (c :: rest))).map fun (token, rest) =>
      (some token, rest)

/-- A string takes up room. -/
theorem codePoints?_shorter {text rest : List Char} {codes : List Nat}
    (read : codePoints? text = some (codes, rest)) : rest.length < text.length := by
  -- The closing quote is read last, and each step before it reads at least one character.
  fun_induction codePoints? text generalizing codes rest with
  | case1 => simp_all
  | case2 a b c d text ih =>
    simp only [bind, Option.bind_eq_some_iff] at read
    obtain ⟨_, _, ⟨_, _⟩, inner, last⟩ := read
    have := ih inner
    simp_all only [pure, Option.some.injEq, Prod.mk.injEq, List.length_cons]
    omega
  | case3 c text _ ih =>
    simp only [bind, Option.bind_eq_some_iff] at read
    obtain ⟨_, _, ⟨_, _⟩, inner, last⟩ := read
    have := ih inner
    simp_all only [pure, Option.some.injEq, Prod.mk.injEq, List.length_cons]
    omega
  | case4 => simp at read
  | case5 c text _ _ _ _ ih =>
    simp only [bind, Option.bind_eq_some_iff] at read
    obtain ⟨⟨_, _⟩, inner, last⟩ := read
    have := ih inner
    simp_all only [pure, Option.some.injEq, Prod.mk.injEq, List.length_cons]
    omega
  | case6 => simp at read

/-- Digits take up room. -/
theorem digits?_shorter {text digits rest : List Char}
    (read : digits? text = some (digits, rest)) : rest.length < text.length := by
  -- There is at least one digit, and the digits with the rest make up the text.
  unfold digits? at read
  split at read
  · simp at read
  · rename_i some_digits
    simp only [Option.some.injEq, Prod.mk.injEq] at read
    have split := congrArg List.length
      (List.takeWhile_append_dropWhile (p := Char.isDigit) (l := text))
    have positive := List.length_pos_iff.mpr some_digits
    rw [List.length_append] at split
    rw [← read.2]
    omega

/-- The digits before the point take up room. -/
theorem wholeDigits?_shorter {text digits rest : List Char}
    (read : wholeDigits? text = some (digits, rest)) : rest.length < text.length := by
  -- A leading zero may stop the reading, but never puts anything back.
  unfold wholeDigits? at read
  split at read
  · simp at read
  · exact digits?_shorter read

/-- Reading a fraction never lengthens a text. -/
theorem fraction?_le {text fraction rest : List Char}
    (read : fraction? text = some (fraction, rest)) : rest.length ≤ text.length := by
  -- A point is passed over together with its digits, and without one nothing is read.
  unfold fraction? at read
  split at read
  · simp only [Option.map_eq_some_iff, Prod.mk.injEq] at read
    obtain ⟨⟨digits, last⟩, inner, _, same⟩ := read
    have := digits?_shorter inner
    simp_all only [List.length_cons]
    omega
  · simp_all

/-- Reading the sign of an exponent never lengthens a text. -/
theorem exponentSign_le (text : List Char) : (exponentSign text).2.length ≤ text.length := by
  -- A sign is one character, and may be missing.
  unfold exponentSign
  split <;> simp

/-- Reading an exponent never lengthens a text. -/
theorem exponent?_le {text exponent rest : List Char}
    (read : exponent? text = some (exponent, rest)) : rest.length ≤ text.length := by
  -- Behind the letter come a sign, which may be missing, and digits.
  unfold exponent? at read
  split at read
  · simp_all
  · rename_i c text
    split at read
    · simp only [Option.map_eq_some_iff, Prod.mk.injEq] at read
      obtain ⟨⟨digits, last⟩, inner, _, same⟩ := read
      have := digits?_shorter inner
      have := exponentSign_le text
      simp_all only [List.length_cons]
      omega
    · simp_all

/-- A number without its sign takes up room. -/
theorem unsigned?_shorter {text rest : List Char} {parts : List Char × List Char}
    (read : unsigned? text = some (parts, rest)) : rest.length < text.length := by
  -- The digits before the point take up room, and the two parts behind them give none back.
  simp only [unsigned?, bind, Option.bind_eq_some_iff] at read
  obtain ⟨⟨whole, one⟩, first, ⟨fraction, two⟩, second, ⟨exponent, three⟩, third, last⟩ := read
  have := wholeDigits?_shorter first
  have := fraction?_le second
  have := exponent?_le third
  simp only [pure, Option.some.injEq, Prod.mk.injEq] at last
  rw [← last.2]
  simp_all only
  omega

/-- A number takes up room. -/
theorem number?_shorter {text rest : List Char} {token : Token}
    (read : number? text = some (token, rest)) : rest.length < text.length := by
  -- A sign only adds to the room that the rest of the number takes up.
  unfold number? at read
  split at read
  · simp only [bind, Option.bind_eq_some_iff] at read
    obtain ⟨⟨parts, one⟩, first, last⟩ := read
    have := unsigned?_shorter first
    simp_all only [pure, Option.some.injEq, Prod.mk.injEq, List.length_cons]
    omega
  · simp only [bind, Option.bind_eq_some_iff] at read
    obtain ⟨⟨parts, one⟩, first, last⟩ := read
    have := unsigned?_shorter first
    split at last <;> simp_all [pure]

/-- A word takes up room. -/
theorem word?_shorter {text rest : List Char} {token : Token}
    (read : word? text = some (token, rest)) : rest.length < text.length := by
  obtain ⟨⟨spelling, value⟩, member, spelled⟩ := List.exists_of_findSome?_eq_some read
  simp only [Option.map_eq_some_iff, Prod.mk.injEq] at spelled
  obtain ⟨_, spelled, _, same⟩ := spelled
  have length := length_of_isPrefixOf? spelled
  -- None of the words is empty.
  have positive : 0 < spelling.toList.length := by
    simp only [words, List.mem_cons, Prod.mk.injEq, List.not_mem_nil, or_false] at member
    rcases member with ⟨rfl, _⟩ | ⟨rfl, _⟩ | ⟨rfl, _⟩ <;> decide
  subst same
  omega

/-- A token or a blank takes up room. -/
theorem token?_shorter {text rest : List Char} {token : Option Token}
    (read : token? text = some (token, rest)) : rest.length < text.length := by
  unfold token? at read
  split at read
  · simp at read
  · rename_i c text
    -- Blanks and marks are one character long.
    iterate 7
      split at read
      · simp_all
    split at read
    · simp only [Option.map_eq_some_iff, Prod.mk.injEq] at read
      obtain ⟨⟨codes, last⟩, inner, _, same⟩ := read
      have := codePoints?_shorter inner
      simp_all only [List.length_cons]
      omega
    · simp only [Option.map_eq_some_iff, Prod.mk.injEq] at read
      obtain ⟨⟨token, last⟩, inner, _, same⟩ := read
      rw [Option.or_eq_some_iff] at inner
      rcases inner with inner | ⟨_, inner⟩
      · have := number?_shorter inner
        simp_all
      · have := word?_shorter inner
        simp_all

/-- Recognises tokens and the blanks between them. -/
def tokenRecogniser : Recogniser (Option Token) where
  front? := token?
  shorter := token?_shorter

/-- The tokens of a text, none when some part of it is no token. -/
def tokens? (text : List Char) : Option (List Token) :=
  (tokenRecogniser.readAll? text).map (·.filterMap id)

end Stocktake.Json
