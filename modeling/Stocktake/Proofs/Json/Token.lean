import Stocktake.Json.Reader

/-! The tokens of a pretty text are those of the value that it spells. -/

namespace Stocktake.Json

mutual

/-- The tokens that spell a value. -/
def Value.tokens : Value → List Token
  | .null => [.null]
  | .bool truth => [.bool truth]
  | .natural n => [.natural n]
  | .numeral literal => [.numeral literal]
  | .string text => [.string text]
  | .array [] => [.openArray, .closeArray]
  | .array (item :: items) => .openArray :: item.tokens ++ itemTokens items ++ [.closeArray]
  | .object [] => [.openObject, .closeObject]
  | .object ((name, value) :: members) =>
    .openObject :: .string name :: .colon :: value.tokens ++ memberTokens members ++
      [.closeObject]

/-- The tokens of the items behind the first one. -/
def itemTokens : List Value → List Token
  | [] => []
  | item :: items => .comma :: item.tokens ++ itemTokens items

/-- The tokens of the members behind the first one. -/
def memberTokens : List (Text × Value) → List Token
  | [] => []
  | (name, value) :: members =>
    .comma :: .string name :: .colon :: value.tokens ++ memberTokens members

end

mutual

/-- Every number in a value is a natural number. -/
def Value.Plain : Value → Prop
  | .numeral _ => False
  | .array items => PlainItems items
  | .object members => PlainMembers members
  | _ => True

/-- All items of an array are plain. -/
def PlainItems : List Value → Prop
  | [] => True
  | item :: items => item.Plain ∧ PlainItems items

/-- All members of an object are plain. -/
def PlainMembers : List (Text × Value) → Prop
  | [] => True
  | (_, value) :: members => value.Plain ∧ PlainMembers members

end

/-- An array of plain items is plain. -/
theorem plain_array {items : List Value} (plain : ∀ item ∈ items, item.Plain) :
    (Value.array items).Plain := by
  -- An array is plain item by item.
  simp only [Value.Plain]
  induction items with
  | nil => trivial
  | cons item items ih =>
    exact ⟨plain item (by simp), ih fun one member => plain one (by simp [member])⟩

/-- An object of plain members is plain. -/
theorem plain_record {members : List (String × Value)}
    (plain : ∀ member ∈ members, member.2.Plain) : (Value.record members).Plain := by
  -- A record is an object, whose members are plain one by one.
  simp only [Value.record, Value.Plain]
  induction members with
  | nil => trivial
  | cons member members ih =>
    exact ⟨plain member (by simp), ih fun one inside => plain one (by simp [inside])⟩

/-- A text cannot go on with the number in front of it. -/
def EndsNumber (behind : List Char) : Prop :=
  ∀ c ∈ behind.head?, c.isDigit = false ∧ c ≠ '.' ∧ c ≠ 'e' ∧ c ≠ 'E'

/-- Whatever begins with a mark or a blank ends the number in front of it. -/
private theorem endsNumber_cons {c : Char} {behind : List Char}
    (other : c.isDigit = false ∧ c ≠ '.' ∧ c ≠ 'e' ∧ c ≠ 'E') : EndsNumber (c :: behind) := by
  -- Only the first character behind a number is asked for.
  intro first found
  rw [← Option.some.inj found]
  exact other

/-- Sixteen digits, each checked against the ranges that the reader tests. -/
private theorem hexValue?_digitChar {value : Nat} (small : value < 16) :
    hexValue? (Nat.digitChar value) = some value := by
  -- The check is finite.
  have checked : ∀ value < 16, hexValue? (Nat.digitChar value) = some value := by decide
  exact checked value small

/-- The escape of a control character spells its code in four digits. -/
private theorem codeUnit?_control {code : Nat} (control : code < 0x20) :
    codeUnit? '0' '0' (Nat.digitChar (code / 16)) (Nat.digitChar (code % 16)) = some code := by
  -- Such a code has two hexadecimal digits, and two zeros stand before them.
  have high : hexValue? (Nat.digitChar (code / 16)) = some (code / 16) :=
    hexValue?_digitChar (by omega)
  have low : hexValue? (Nat.digitChar (code % 16)) = some (code % 16) :=
    hexValue?_digitChar (by omega)
  have zero : hexValue? '0' = some 0 := by decide
  simp only [codeUnit?, zero, high, low, bind, Option.bind_some, pure, Option.some.injEq]
  omega

/-- A character that needs no escape is read as itself. -/
private theorem codePoints?_plain {c : Char} (noQuote : c ≠ '\x22') (noEscape : c ≠ '\\')
    (printed : ¬ c.toNat < 0x20) (rest : List Char) :
    codePoints? (c :: rest) = (codePoints? rest).map fun read => (c.toNat :: read.1, read.2) := by
  -- None of the readings of a mark, an escape or a control character applies.
  rw [codePoints?, if_neg printed]
  · cases codePoints? rest <;> rfl
  · exact noQuote
  · exact fun _ _ _ _ _ same _ => noEscape same
  · exact fun _ _ same _ => noEscape same

/-- A short escape is read as the character that it stands for. -/
private theorem codePoints?_shortEscape {c plain : Char} (numbered : c ≠ 'u')
    (short : shortEscape? c = some plain) (rest : List Char) :
    codePoints? ('\\' :: c :: rest) =
      (codePoints? rest).map fun read => (plain.toNat :: read.1, read.2) := by
  -- An escape with a number begins otherwise, and the table tells the others apart.
  rw [codePoints?, short]
  · cases codePoints? rest <;> rfl
  · exact fun _ _ _ _ _ same _ => numbered same

/-- The spelling of a character reads back as its code point, whatever stands behind it. -/
theorem codePoints?_escape (c : Char) (rest : List Char) :
    codePoints? (escape c ++ rest) =
      (codePoints? rest).map fun read => (c.toNat :: read.1, read.2) := by
  -- The cases are those of the writer: marks, control characters, and all others.
  unfold escape
  split
  · rename_i quote
    rw [beq_iff_eq.mp quote]
    exact codePoints?_shortEscape (by decide) (by decide) rest
  split
  · rename_i backslash
    rw [beq_iff_eq.mp backslash]
    exact codePoints?_shortEscape (by decide) (by decide) rest
  split
  · rename_i control
    -- Five control characters have a short escape of their own.
    iterate 5
      split
      · rename_i short
        rw [beq_iff_eq.mp short]
        exact codePoints?_shortEscape (by decide) (by decide) rest
    simp only [List.cons_append, List.nil_append]
    rw [codePoints?, codeUnit?_control control]
    cases codePoints? rest <;> rfl
  · rename_i noQuote noEscape printed
    simp only [beq_iff_eq] at noQuote noEscape
    exact codePoints?_plain noQuote noEscape printed rest

/-- A spelled text reads back as its code points, up to the quote that closes it. -/
theorem codePoints?_spelled (text rest : List Char) :
    codePoints? (text.flatMap escape ++ '\x22' :: rest) = some (text.map Char.toNat, rest) := by
  -- Each character is read in turn, and the closing quote ends the reading.
  induction text with
  | nil => rw [List.flatMap_nil, List.nil_append, codePoints?]; rfl
  | cons c text ih =>
    rw [List.flatMap_cons, List.append_assoc, codePoints?_escape, ih]
    rfl

/-- No character is half of a surrogate pair. -/
private theorem toNat_not_surrogate (c : Char) : ¬ (0xD800 ≤ c.toNat ∧ c.toNat < 0xE000) := by
  -- Characters are valid by their type, which leaves the surrogates out.
  have valid := c.valid
  simp only [UInt32.isValidChar, Nat.isValidChar] at valid
  change c.toNat < _ ∨ _ < c.toNat ∧ _ at valid
  omega

/-- The code points of a text pair up to that text, since none of them is a surrogate. -/
theorem pairSurrogates?_toNat (text : List Char) :
    pairSurrogates? (text.map Char.toNat) = some text := by
  -- No character is half of a surrogate pair, so that each code stands alone.
  induction text with
  | nil => rfl
  | cons c text ih =>
    have whole := toNat_not_surrogate c
    cases text with
    | nil =>
      rw [List.map_cons, List.map_nil, pairSurrogates?, if_neg whole, Char.ofNat_toNat]
    | cons next text =>
      rw [List.map_cons] at ih
      rw [List.map_cons, List.map_cons, pairSurrogates?, if_neg (by omega), if_neg (by omega), ih,
        Char.ofNat_toNat]
      rfl

/-- A quotation mark begins a string. -/
private theorem token?_quote (rest : List Char) :
    token? ('\x22' :: rest) = (codePoints? rest).map fun read =>
      (some (.string ((pairSurrogates? read.1).map String.ofList)), read.2) :=
  -- The mark is the first case of the reader that applies.
  rfl

/-- A quoted string is one token. -/
theorem token?_quoted (text : Text) (rest : List Char) :
    token? (quoted text ++ rest) = some (some (.string text), rest) := by
  cases text with
  | none =>
    -- The half of a pair is read as an escape that stands for no text.
    have spelled : quoted none = ['\x22', '\\', 'u', 'd', '8', '0', '0', '\x22'] := by rfl
    have codes : codePoints? ('\\' :: 'u' :: 'd' :: '8' :: '0' :: '0' :: '\x22' :: rest) =
        some ([0xD800], rest) := by
      rw [codePoints?, codePoints?]
      rfl
    simp only [spelled, List.cons_append, List.nil_append]
    rw [token?_quote, codes]
    rfl
  | some content =>
    have spelled : quoted (some content) =
        '\x22' :: content.toList.flatMap escape ++ ['\x22'] := rfl
    have codes := codePoints?_spelled content.toList rest
    simp only [spelled, List.cons_append, List.append_assoc, List.nil_append]
    rw [token?_quote, codes, Option.map_some, pairSurrogates?_toNat, Option.map_some,
      String.ofList_toList]

/-- The first digit of a number of several digits is that of a smaller number above zero. -/
private theorem toDigits_head {n : Nat} {digits : List Char}
    (spelled : Nat.toDigits 10 n = '0' :: digits) :
    digits = [] := by
  -- Leading digits are those of the number without its last digit, which is smaller.
  induction n using Nat.strongRecOn generalizing digits with
  | ind n ih =>
    rw [Nat.toDigits_eq_if (by decide)] at spelled
    split at spelled
    · exact (List.cons.inj spelled).2.symm
    · rename_i large
      cases front : Nat.toDigits 10 (n / 10) with
      | nil => exact absurd front Nat.toDigits_ne_nil
      | cons first others =>
        rw [front, List.cons_append] at spelled
        have zero := (List.cons.inj spelled).1
        rw [zero] at front
        have alone := ih (n / 10) (by omega) front
        -- A lone zero in front would stand for zero, which is too small.
        have value := Nat.ofDigitChars_ten_toDigits (n := n / 10)
        rw [front, alone] at value
        have none : Nat.ofDigitChars 10 ['0'] 0 = 0 := by decide
        omega

/-- The digits of a number are read as a whole when no digit stands behind them. -/
private theorem digits?_toDigits (n : Nat) {rest : List Char} (ends : EndsNumber rest) :
    digits? (Nat.toDigits 10 n ++ rest) = some (Nat.toDigits 10 n, rest) := by
  -- What ends a number begins with no digit, so the run of digits stops at its end.
  have digit : ∀ c ∈ Nat.toDigits 10 n, c.isDigit = true := fun c member =>
    Nat.isDigit_of_mem_toDigits (by decide) (by decide) member
  have stop : rest.takeWhile Char.isDigit = [] ∧ rest.dropWhile Char.isDigit = rest := by
    cases rest with
    | nil => exact ⟨rfl, rfl⟩
    | cons c rest =>
      have other := (ends c rfl).1
      simp [other]
  unfold digits?
  rw [List.takeWhile_append_of_pos digit, List.dropWhile_append_of_pos digit, stop.1, stop.2,
    List.append_nil]
  cases spelled : Nat.toDigits 10 n with
  | nil => exact absurd spelled Nat.toDigits_ne_nil
  | cons first others => rfl

/-- The digits of a number are all of it that stands before a point. -/
private theorem wholeDigits?_toDigits (n : Nat) {rest : List Char} (ends : EndsNumber rest) :
    wholeDigits? (Nat.toDigits 10 n ++ rest) = some (Nat.toDigits 10 n, rest) := by
  -- Two zeros, or a zero before a digit, never begin the digits of a number.
  unfold wholeDigits?
  rw [digits?_toDigits n ends]
  split
  · rename_i zero
    have spelled := congrArg Prod.fst (Option.some.inj zero)
    exact absurd (toDigits_head spelled) (by simp)
  · rfl

/-- Behind the digits of a number no fraction follows. -/
private theorem fraction?_of_ends {rest : List Char} (ends : EndsNumber rest) :
    fraction? rest = some ([], rest) := by
  -- A fraction would begin with a point.
  unfold fraction?
  split
  · exact absurd rfl (ends _ rfl).2.1
  · rfl

/-- Behind the digits of a number no exponent follows. -/
private theorem exponent?_of_ends {rest : List Char} (ends : EndsNumber rest) :
    exponent? rest = some ([], rest) := by
  -- An exponent would begin with a letter for it.
  cases rest with
  | nil => rfl
  | cons c rest =>
    have other := (ends c rfl).2.2
    simp [exponent?, other.1, other.2]

/-- A digit opens a number, since it is neither a blank nor a mark. -/
private theorem token?_digit {first : Char} (digit : first.isDigit = true) (rest : List Char) :
    token? (first :: rest) =
      ((number? (first :: rest)).or (word? (first :: rest))).map fun read =>
        (some read.1, read.2) := by
  -- Each mark and each blank is a character that is no digit.
  have apart : ∀ mark : Char, mark.isDigit = false → first ≠ mark := by
    rintro mark other rfl
    rw [digit] at other
    exact absurd other (by decide)
  simp [token?, isSpace, apart ' ' (by decide), apart '\t' (by decide), apart '\n' (by decide),
    apart '\r' (by decide), apart '[' (by decide), apart ']' (by decide),
    apart '\x7b' (by decide), apart '\x7d' (by decide), apart ',' (by decide),
    apart ':' (by decide), apart '\x22' (by decide)]

/-- The digits of a number are one token. -/
theorem token?_natural (n : Nat) {rest : List Char} (ends : EndsNumber rest) :
    token? (Nat.toDigits 10 n ++ rest) = some (some (.natural n), rest) := by
  -- The first digit of a number tells it apart from all other tokens.
  have unsigned : unsigned? (Nat.toDigits 10 n ++ rest) = some ((Nat.toDigits 10 n, []), rest) := by
    simp [unsigned?, wholeDigits?_toDigits n ends, fraction?_of_ends ends, exponent?_of_ends ends]
  have value := Nat.ofDigitChars_ten_toDigits (n := n)
  have filled := Nat.toDigits_ne_nil (n := n) (b := 10)
  have digit : ∀ c ∈ Nat.toDigits 10 n, c.isDigit = true := fun c member =>
    Nat.isDigit_of_mem_toDigits (by decide) (by decide) member
  generalize Nat.toDigits 10 n = digits at *
  cases digits with
  | nil => exact absurd rfl filled
  | cons first others =>
    have isDigit := digit first (by simp)
    have noSign : first ≠ '-' := by
      rintro rfl
      exact absurd isDigit (by decide)
    rw [List.cons_append] at unsigned ⊢
    have read : number? (first :: (others ++ rest)) = some (.natural n, rest) := by
      unfold number?
      split
      · rename_i sign
        exact absurd (List.cons.inj sign).1 noSign
      · simp [unsigned, value]
    rw [token?_digit isDigit, read]
    rfl

/-- What a text begins with comes before the tokens of the rest, unless it is a blank. -/
private theorem tokens?_front {text rest : List Char} {found : Option Token}
    (front : token? text = some (found, rest)) :
    tokens? text = (tokens? rest).map (found.toList ++ ·) := by
  -- The recogniser takes its items one after the other, and a blank is an item without a token.
  cases text with
  | nil => simp [token?] at front
  | cons c text =>
    have step := tokenRecogniser.readAll?_cons c text
    change _ = (token? (c :: text)).bind _ at step
    rw [tokens?, step, front, Option.bind_some, tokens?]
    dsimp only
    cases tokenRecogniser.readAll? rest <;> cases found <;> simp

/-- A token at the front of a text comes before those of the rest. -/
theorem tokens?_token {text : List Char} (rest : List Char) {token : Token}
    (front : token? text = some (some token, rest)) :
    tokens? text = (tokens? rest).map (token :: ·) :=
  -- The first item is a token here.
  tokens?_front front

/-- Blanks between tokens do not count. -/
theorem tokens?_blank {c : Char} (blank : isSpace c = true) (rest : List Char) :
    tokens? (c :: rest) = tokens? rest := by
  -- The first item is a blank, which adds no token.
  have front : token? (c :: rest) = some (none, rest) := by
    unfold token?
    exact if_pos blank
  rw [tokens?_front front]
  cases tokens? rest <;> rfl

/-- The line feed and each blank of the indentation are passed over. -/
private theorem tokens?_lineBreak (level : Nat) (rest : List Char) :
    tokens? (lineBreak level rest) = tokens? rest := by
  -- The indentation is a run of spaces, which end one after the other.
  have indented : ∀ width, tokens? (List.replicate width ' ' ++ rest) = tokens? rest := by
    intro width
    induction width with
    | zero => rfl
    | succ width ih =>
      rw [List.replicate_succ, List.cons_append, tokens?_blank (by decide), ih]
  rw [lineBreak, List.cons_append, tokens?_blank (by decide), indented]

/-- A line break ends a number. -/
private theorem endsNumber_lineBreak (level : Nat) (rest : List Char) :
    EndsNumber (lineBreak level rest) :=
  -- A line feed is no part of a number.
  endsNumber_cons (by decide)

/-- Further items begin with a comma, or leave what stands behind them. -/
private theorem endsNumber_prettyItems {level : Nat} {behind : List Char} (ends : EndsNumber behind)
    (items : List Value) : EndsNumber (prettyItems level behind items) := by
  -- A comma is no part of a number.
  cases items with
  | nil => exact ends
  | cons item items => exact endsNumber_cons (by decide)

/-- Further members begin with a comma, or leave what stands behind them. -/
private theorem endsNumber_prettyMembers {level : Nat} {behind : List Char}
    (ends : EndsNumber behind) (members : List (Text × Value)) :
    EndsNumber (prettyMembers level behind members) := by
  -- A comma is no part of a number, here either.
  cases members with
  | nil => exact ends
  | cons member members => exact endsNumber_cons (by decide)

/-- A name, its colon and the blank behind it are two tokens. -/
private theorem tokens?_label (name : Text) (rest : List Char) :
    tokens? (quoted name ++ ':' :: ' ' :: rest) =
      (tokens? rest).map fun tokens => .string name :: .colon :: tokens := by
  -- The quoted name ends at its own mark, whatever follows it.
  have colon : token? (':' :: ' ' :: rest) = some (some .colon, ' ' :: rest) := rfl
  rw [tokens?_token _ (token?_quoted name _), tokens?_token _ colon, tokens?_blank (by decide)]
  cases tokens? rest <;> rfl

mutual

/-- The pretty text of a plain value has the tokens of that value. -/
theorem tokens?_pretty (level : Nat) (behind : List Char) (ends : EndsNumber behind) :
    ∀ value : Value, value.Plain →
      tokens? (value.pretty level behind) = (tokens? behind).map (value.tokens ++ ·)
  -- Every part ends where the next mark begins, so no token runs into the text behind it.
  | .null, _ => tokens?_token behind rfl
  | .bool true, _ => tokens?_token behind rfl
  | .bool false, _ => tokens?_token behind rfl
  | .natural n, _ => tokens?_token behind (token?_natural n ends)
  | .string text, _ => tokens?_token behind (token?_quoted text behind)
  | .array [], _ => by
    rw [Value.pretty, tokens?_token (']' :: behind) rfl, tokens?_token behind rfl,
      Option.map_map]
    rfl
  | .array (item :: items), plain => by
    have inside : EndsNumber (lineBreak level (']' :: behind)) := endsNumber_lineBreak level _
    have closing : token? (']' :: behind) = some (some .closeArray, behind) := rfl
    rw [Value.pretty, tokens?_token (lineBreak _ _) rfl, tokens?_lineBreak,
      tokens?_pretty _ _ (endsNumber_prettyItems inside items) item plain.1,
      tokens?_prettyItems _ _ inside items plain.2, tokens?_lineBreak, tokens?_token behind closing]
    simp [Value.tokens, Function.comp_def]
  | .object [], _ => by
    rw [Value.pretty, tokens?_token ('\x7d' :: behind) rfl,
      tokens?_token behind rfl, Option.map_map]
    rfl
  | .object ((name, value) :: members), plain => by
    have inside : EndsNumber (lineBreak level ('\x7d' :: behind)) := endsNumber_lineBreak level _
    have closing : token? ('\x7d' :: behind) = some (some .closeObject, behind) := rfl
    rw [Value.pretty, tokens?_token (lineBreak _ _) rfl, tokens?_lineBreak, tokens?_label,
      tokens?_pretty _ _ (endsNumber_prettyMembers inside members) value plain.1,
      tokens?_prettyMembers _ _ inside members plain.2, tokens?_lineBreak,
      tokens?_token behind closing]
    simp [Value.tokens, Function.comp_def]

/-- Further items have the tokens of these items. -/
theorem tokens?_prettyItems (level : Nat) (behind : List Char) (ends : EndsNumber behind) :
    ∀ items : List Value, PlainItems items →
      tokens? (prettyItems level behind items) = (tokens? behind).map (itemTokens items ++ ·)
  -- A comma and a line break stand before each further item.
  | [], _ => by simp [prettyItems, itemTokens]
  | item :: items, plain => by
    rw [prettyItems, tokens?_token (lineBreak _ _) rfl, tokens?_lineBreak,
      tokens?_pretty _ _ (endsNumber_prettyItems ends items) item plain.1,
      tokens?_prettyItems _ _ ends items plain.2]
    simp [itemTokens, Function.comp_def]

/-- Further members have the tokens of these members. -/
theorem tokens?_prettyMembers (level : Nat) (behind : List Char) (ends : EndsNumber behind) :
    ∀ members : List (Text × Value), PlainMembers members →
      tokens? (prettyMembers level behind members) =
        (tokens? behind).map (memberTokens members ++ ·)
  -- Before each further member stand a comma, a line break and its name.
  | [], _ => by simp [prettyMembers, memberTokens]
  | (name, value) :: members, plain => by
    rw [prettyMembers, tokens?_token (lineBreak _ _) rfl, tokens?_lineBreak, tokens?_label,
      tokens?_pretty _ _ (endsNumber_prettyMembers ends members) value plain.1,
      tokens?_prettyMembers _ _ ends members plain.2]
    simp [memberTokens, Function.comp_def]

end

/-- The text that a plain value is rendered to consists of the tokens of that value. -/
theorem tokens?_render {value : Value} (plain : value.Plain) :
    tokens? value.render.toList = some value.tokens := by
  -- Behind the text of the whole value there is nothing to read.
  have ends : EndsNumber [] := by simp [EndsNumber]
  rw [Value.render, String.toList_ofList, tokens?_pretty 0 [] ends value plain]
  simp [tokens?, Recogniser.readAll?, Recogniser.readFrom?]

end Stocktake.Json
