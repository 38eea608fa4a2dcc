import Stocktake.Json.Token

/-! Texts between quotes: where they end, and what is spelled between the quotes. -/

namespace Stocktake.Toml

/-- A blank within a line. -/
def isSpace (c : Char) : Bool :=
  c == ' ' || c == '\t'

/-- A control character that cannot stand in a text or a comment; the tab can. -/
def isForbidden (c : Char) : Bool :=
  (c.toNat < 0x20 && c != '\t') || c.toNat == 0x7F

/-- The quotes that a text stands between tell how it is spelled. -/
structure Quotes where
  mark : Char
  /-- A backslash escapes what follows it. -/
  escapes : Bool
  /-- The mark is written three times, and the text may have many lines. -/
  multiline : Bool
  deriving DecidableEq, Repr

/-- The quotes that a text begins with, and what follows them. -/
def openingQuotes? : List Char → Option (Quotes × List Char)
  | '\x22' :: '\x22' :: '\x22' :: rest => some (⟨'\x22', true, true⟩, rest)
  | '\x22' :: rest => some (⟨'\x22', true, false⟩, rest)
  | '\x27' :: '\x27' :: '\x27' :: rest => some (⟨'\x27', false, true⟩, rest)
  | '\x27' :: rest => some (⟨'\x27', false, false⟩, rest)
  | _ => none

/-- Up to two marks may stand directly before the three that close a text of many lines. -/
def spareMarks (mark : Char) : List Char → List Char × List Char
  | a :: b :: rest =>
    if a = mark then
      if b = mark then ([a, b], rest) else ([a], b :: rest)
    else ([], a :: b :: rest)
  | [a] => if a = mark then ([a], []) else ([], [a])
  | [] => ([], [])

/-- What the closing quotes at the front of a text add to its body, and what follows them. -/
def Quotes.closing? (quotes : Quotes) : List Char → Option (List Char × List Char)
  | a :: rest =>
    if a = quotes.mark then
      if quotes.multiline then
        match rest with
        | b :: c :: rest =>
          if b = quotes.mark ∧ c = quotes.mark then some (spareMarks quotes.mark rest) else none
        | _ => none
      else some ([], rest)
    else none
  | [] => none

/-- A text ends without closing quotes at the end of everything, or at the end of its line. -/
def Quotes.breaksOff (quotes : Quotes) : List Char → Bool
  | [] => true
  | c :: _ => !quotes.multiline && c == '\n'

/-- Reads on to the closing quotes: the body, none when they do not come, and what follows. -/
def Quotes.bodyFrom (quotes : Quotes) (escaped : Bool) (body : List Char) :
    List Char → Option (List Char) × List Char
  | [] => (none, [])
  | c :: rest =>
    -- An escaped mark does not close the text, nor does an escaped backslash escape.
    if escaped && (c == quotes.mark || c == '\\') then quotes.bodyFrom false (c :: body) rest
    else if quotes.breaksOff (c :: rest) then (none, c :: rest)
    else
      match quotes.closing? (c :: rest) with
      | some (spare, rest) => (some (body.reverse ++ spare), rest)
      | none => quotes.bodyFrom (quotes.escapes && c == '\\') (c :: body) rest

/-- The character of a code point; surrogates and numbers beyond the last one have none. -/
def charOfCode? (code : Nat) : Option Char :=
  if code < 0xD800 ∨ (0xE000 ≤ code ∧ code < 0x110000) then some (Char.ofNat code) else none

/-- The character that a short escape stands for. -/
def shortEscape? (c : Char) : Option Char :=
  if c == '\x22' || c == '\\' then some c
  else if c == 'b' then some '\x08'
  else if c == 't' then some '\t'
  else if c == 'n' then some '\n'
  else if c == 'f' then some '\x0c'
  else if c == 'r' then some '\r'
  else if c == 'e' then some '\x1b'
  else none

/-- The number of hexadecimal digits of a numbered escape, by the letter that announces it. -/
def escapeLength? (c : Char) : Option Nat :=
  if c == 'x' then some 2
  else if c == 'u' then some 4
  else if c == 'U' then some 8
  else none

/-- Where the reader of a body stands. -/
inductive BodyState
  | plain
  /-- Behind a backslash. -/
  | escape
  /-- In a numbered escape, with the digits still to come and the number so far. -/
  | numbered (digits : Nat) (code : Nat)
  /-- Behind a backslash and blanks, which have to end their line. -/
  | folding
  /-- Behind a backslash that ended its line: blanks and line ends are passed over. -/
  | folded
  /-- Behind a carriage return, which has to end its line; it may be one that is passed over. -/
  | carriage (passed : Bool)
  deriving DecidableEq, Repr

/-- Takes a character that stands for itself unless it begins an escape or a line end. -/
def BodyState.ofPlain (quotes : Quotes) (c : Char) : Option (List Char × BodyState) :=
  if quotes.escapes && c == '\\' then some ([], .escape)
  else if quotes.multiline && c == '\n' then some (['\n'], .plain)
  else if quotes.multiline && c == '\r' then some ([], .carriage false)
  else if isForbidden c then none
  else some ([c], .plain)

/-- Takes a blank or a line end behind a backslash, none when it is another character. -/
def BodyState.ofFold? (state : BodyState) (c : Char) : Option BodyState :=
  if isSpace c then some state
  else if c == '\n' then some .folded
  else if c == '\r' then some (.carriage true)
  else none

/-- Takes one character of a body: what it adds to the text, and where the reader stands then. -/
def BodyState.next (quotes : Quotes) (state : BodyState) (c : Char) :
    Option (List Char × BodyState) :=
  match state with
  | .plain => ofPlain quotes c
  | .escape =>
    match shortEscape? c, escapeLength? c with
    | some short, _ => some ([short], .plain)
    | none, some digits => some ([], .numbered digits 0)
    | none, none =>
      if quotes.multiline then (ofFold? .folding c).map fun state => ([], state) else none
  | .numbered digits code => do
    let code := code * 16 + (← Json.hexValue? c)
    if digits ≤ 1 then return ([← charOfCode? code], .plain)
    else return ([], .numbered (digits - 1) code)
  | .folding => (ofFold? .folding c).map fun state => ([], state)
  | .folded =>
    match ofFold? .folded c with
    | some state => some ([], state)
    | none => ofPlain quotes c
  | .carriage passed =>
    if c != '\n' then none
    else if passed then some ([], .folded)
    else some (['\r', '\n'], .plain)

/-- A body can end where no escape and no line end is half read. -/
def BodyState.isComplete (state : BodyState) : Bool :=
  state == .plain || state == .folded

/-- Takes one character behind what a body spells so far, the last of which comes first. -/
def BodyState.take (quotes : Quotes) (reading : List Char × BodyState) (c : Char) :
    Option (List Char × BodyState) :=
  match reading.2.next quotes c with
  | some (added, state) => some (added.reverseAux reading.1, state)
  | none => none

/-- What a body holds; of many lines, a line end right behind the opening quotes does not count. -/
def Quotes.content (quotes : Quotes) (body : List Char) : List Char :=
  match quotes.multiline, body with
  | true, '\n' :: body => body
  | true, '\r' :: '\n' :: body => body
  | _, body => body

/-- The text that a body spells. -/
def Quotes.spelled? (quotes : Quotes) (body : List Char) : Option String :=
  match (quotes.content body).foldlM (BodyState.take quotes) ([], .plain) with
  | some (done, state) => if state.isComplete then some (.ofList done.reverse) else none
  | none => none

/-- A text between quotes; a malformed one has no content, and only one line can be a name. -/
structure QuotedText where
  content : Option String
  multiline : Bool
  deriving DecidableEq, Repr

/-- Reads a text between quotes, malformed or not. -/
def quotedText? (text : List Char) : Option (QuotedText × List Char) :=
  match openingQuotes? text with
  | none => none
  | some (quotes, inner) =>
    let (body, rest) := quotes.bodyFrom false [] inner
    some (⟨body.bind quotes.spelled?, quotes.multiline⟩, rest)

/-- Opening quotes take up room. -/
theorem openingQuotes?_shorter {text rest : List Char} {quotes : Quotes}
    (read : openingQuotes? text = some (quotes, rest)) : rest.length < text.length := by
  -- Either one mark opens a text or three do.
  unfold openingQuotes? at read
  split at read <;> simp_all <;> omega

/-- Spare marks never lengthen a text. -/
theorem spareMarks_le (mark : Char) (text : List Char) :
    (spareMarks mark text).2.length ≤ text.length := by
  -- At most two marks are spare, and they are taken from the front.
  unfold spareMarks
  split
  · split
    · split <;> simp
      omega
    · simp
  · split <;> simp
  · simp

/-- Closing quotes never lengthen a text. -/
theorem Quotes.closing?_le {quotes : Quotes} {text spare rest : List Char}
    (read : quotes.closing? text = some (spare, rest)) : rest.length ≤ text.length := by
  -- One mark closes a line, while of several the spare ones are left in the text before three close
  -- it.
  unfold closing? at read
  split at read
  · split at read
    · split at read
      · split at read
        · split at read
          · rename_i behind _
            have bound := spareMarks_le quotes.mark behind
            simp only [Option.some.injEq] at read
            simp only [read] at bound
            simp only [List.length_cons]
            omega
          · simp at read
        · simp at read
      · simp_all
    · simp at read
  · simp at read

/-- Reading a body never lengthens a text. -/
theorem Quotes.bodyFrom_le (quotes : Quotes) (escaped : Bool) (body text : List Char) :
    (quotes.bodyFrom escaped body text).2.length ≤ text.length := by
  -- Each step of the search passes over a character or ends at closing quotes.
  fun_induction quotes.bodyFrom escaped body text with
  | case1 => simp
  | case2 => simp only [List.length_cons]; omega
  | case3 => simp
  | case4 _ _ _ _ _ _ _ _ closed => exact closing?_le closed
  | case5 => simp only [List.length_cons]; omega

/-- A text between quotes takes up room. -/
theorem quotedText?_shorter {text rest : List Char} {quoted : QuotedText}
    (read : quotedText? text = some (quoted, rest)) : rest.length < text.length := by
  -- The body may be empty, but the quotes that open it are not.
  unfold quotedText? at read
  split at read
  · simp at read
  · rename_i quotes inner opened
    have opening := openingQuotes?_shorter opened
    have body := quotes.bodyFrom_le false [] inner
    simp only [Option.some.injEq, Prod.mk.injEq] at read
    rw [← read.2]
    omega

end Stocktake.Toml
