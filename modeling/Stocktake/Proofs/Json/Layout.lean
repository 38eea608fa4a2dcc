import Mathlib.Data.List.Chain
import Stocktake.Proofs.Json.RoundTrip

/-! The layout of a pretty text: its lines are indented or close a container, and nothing in them is
a control character. Blanks may follow it. -/

namespace Stocktake.Json

/-- A line behind the first one begins with a blank or with a bracket that closes a container. -/
def OpensLine (c : Char) : Prop :=
  c = ' ' ∨ c = ']' ∨ c = '\x7d'

/-- A text without control characters but line feeds, behind each of which a line is opened. -/
inductive LaidOut : List Char → Prop
  | nil : LaidOut []
  | printed {c : Char} {text : List Char} : 0x20 ≤ c.toNat → LaidOut text → LaidOut (c :: text)
  | line {c : Char} {text : List Char} :
    OpensLine c → LaidOut (c :: text) → LaidOut ('\n' :: c :: text)

namespace LaidOut

variable {text : List Char}

/-- In such a text no other control character occurs. -/
theorem printed_of_mem (laidOut : LaidOut text) {c : Char} (member : c ∈ text) :
    c = '\n' ∨ 0x20 ≤ c.toNat := by
  -- Laid out texts consist of printed characters and line feeds.
  induction laidOut with
  | nil => cases member
  | printed visible _ ih =>
    rcases List.mem_cons.mp member with rfl | later
    · exact .inr visible
    · exact ih later
  | line _ _ ih =>
    rcases List.mem_cons.mp member with rfl | later
    · exact .inl rfl
    · exact ih later

/-- In such a text each line feed comes before a character that opens a line. -/
theorem isChain (laidOut : LaidOut text) :
    text.IsChain fun one next => one = '\n' → OpensLine next := by
  -- A line feed is only ever put before a line that opens as it should.
  induction laidOut with
  | nil => exact .nil
  | printed visible _ ih =>
    refine List.isChain_cons.mpr ⟨?_, ih⟩
    rintro next _ rfl
    exact absurd visible (by decide)
  | line opens _ ih => exact .cons_cons (fun _ => opens) ih

/-- Printed characters may come in front. -/
theorem append (run : List Char) (visible : ∀ c ∈ run, 0x20 ≤ c.toNat) (laidOut : LaidOut text) :
    LaidOut (run ++ text) := by
  -- The run is put in front one character at a time.
  induction run with
  | nil => exact laidOut
  | cons c run ih =>
    have others := ih fun d member => visible d (List.mem_cons_of_mem c member)
    exact .printed (visible c List.mem_cons_self) others

/-- A line that is indented may come behind a line feed. -/
theorem lineBreak_succ (level : Nat) (laidOut : LaidOut text) :
    LaidOut (lineBreak (level + 1) text) := by
  -- The indentation has two spaces at least, and a space opens a line.
  have indented : LaidOut (List.replicate (2 * (level + 1)) ' ' ++ text) := by
    refine append _ (fun c member => ?_) laidOut
    rw [List.eq_of_mem_replicate member]
    decide
  exact .line (.inl rfl) indented

/-- A line that closes a container may come behind a line feed, whatever its level is. -/
theorem lineBreak_closing (level : Nat) {c : Char} (opens : OpensLine c) (visible : 0x20 ≤ c.toNat)
    (laidOut : LaidOut text) : LaidOut (lineBreak level (c :: text)) := by
  -- At the outermost level there is no indentation, and the closing mark opens its line itself.
  cases level with
  | zero => exact .line opens (.printed visible laidOut)
  | succ level => exact (LaidOut.printed visible laidOut).lineBreak_succ level

end LaidOut

/-- The spelling of a character has no control character. -/
theorem printed_escape (c : Char) : ∀ d ∈ escape c, 0x20 ≤ d.toNat := by
  have digit : ∀ value < 16, 0x20 ≤ (Nat.digitChar value).toNat := by decide
  unfold escape
  split
  · simp
  split
  · simp
  split
  · rename_i control
    iterate 5
      split
      · simp
    -- The code of a control character is spelled with two digits behind zeros.
    have high := digit (c.toNat / 16) (by omega)
    have low := digit (c.toNat % 16) (by omega)
    simp [high, low]
  · rename_i visible
    intro d member
    rw [List.mem_singleton.mp member]
    exact Nat.not_lt.mp visible

/-- A quoted string has no control character. -/
theorem printed_quoted (text : Text) : ∀ c ∈ quoted text, 0x20 ≤ c.toNat := by
  -- Between its two marks a string is spelled by escapes, which have no control character.
  cases text with
  | none =>
    have spelled : quoted none = ['\x22', '\\', 'u', 'd', '8', '0', '0', '\x22'] := by rfl
    rw [spelled]
    simp
  | some content =>
    have spelled : quoted (some content) =
        '\x22' :: (content.toList.flatMap escape ++ ['\x22']) := rfl
    rw [spelled]
    intro c member
    rcases List.mem_cons.mp member with rfl | inside
    · decide
    rcases List.mem_append.mp inside with spelling | last
    · obtain ⟨d, _, within⟩ := List.mem_flatMap.mp spelling
      exact printed_escape d c within
    · rw [List.mem_singleton.mp last]
      decide

/-- The digits of a number are no control characters. -/
theorem printed_toDigits (n : Nat) : ∀ c ∈ Nat.toDigits 10 n, 0x20 ≤ c.toNat := by
  -- Digits have codes from 48 on.
  intro c member
  have digit := Nat.isDigit_of_mem_toDigits (by decide) (by decide) member
  simp only [Char.isDigit, Bool.and_eq_true, decide_eq_true_eq] at digit
  have least : 48 ≤ c.toNat := UInt32.le_iff_toNat_le.mp digit.1
  omega

mutual

/-- The pretty text of a plain value is laid out like the text behind it. -/
theorem laidOut_pretty (level : Nat) {behind : List Char} (laidOut : LaidOut behind) :
    ∀ value : Value, value.Plain → LaidOut (value.pretty level behind)
  -- Containers break lines before their parts and before their closing mark, and nowhere else.
  | .null, _ => .append "null".toList (by simp) laidOut
  | .bool true, _ => .append "true".toList (by simp) laidOut
  | .bool false, _ => .append "false".toList (by simp) laidOut
  | .natural n, _ => .append _ (printed_toDigits n) laidOut
  | .string text, _ => .append _ (printed_quoted text) laidOut
  | .array [], _ => .append ['[', ']'] (by simp) laidOut
  | .array (item :: items), plain => by
    have closing := laidOut.lineBreak_closing level (c := ']') (.inr (.inl rfl)) (by decide)
    have others := laidOut_prettyItems level closing items plain.2
    have first := laidOut_pretty (level + 1) others item plain.1
    exact .printed (by decide) (first.lineBreak_succ level)
  | .object [], _ => .append ['\x7b', '\x7d'] (by simp) laidOut
  | .object ((name, value) :: members), plain => by
    have closing := laidOut.lineBreak_closing level (c := '\x7d') (.inr (.inr rfl)) (by decide)
    have others := laidOut_prettyMembers level closing members plain.2
    have first := laidOut_pretty (level + 1) others value plain.1
    have marked : LaidOut (':' :: ' ' :: _) := .printed (by decide) (.printed (by decide) first)
    exact .printed (by decide) ((marked.append _ (printed_quoted name)).lineBreak_succ level)

/-- Further items are laid out like the text behind them. -/
theorem laidOut_prettyItems (level : Nat) {behind : List Char} (laidOut : LaidOut behind) :
    ∀ items : List Value, PlainItems items → LaidOut (prettyItems (level + 1) behind items)
  -- Each further item stands on its own line behind a comma.
  | [], _ => laidOut
  | item :: items, plain => by
    have others := laidOut_prettyItems level laidOut items plain.2
    have first := laidOut_pretty (level + 1) others item plain.1
    exact .printed (by decide) (first.lineBreak_succ level)

/-- Further members are laid out like the text behind them. -/
theorem laidOut_prettyMembers (level : Nat) {behind : List Char} (laidOut : LaidOut behind) :
    ∀ members : List (Text × Value), PlainMembers members →
      LaidOut (prettyMembers (level + 1) behind members)
  -- Each further member stands on its own line, with its name and a colon in front.
  | [], _ => laidOut
  | (name, value) :: members, plain => by
    have others := laidOut_prettyMembers level laidOut members plain.2
    have first := laidOut_pretty (level + 1) others value plain.1
    have marked : LaidOut (':' :: ' ' :: _) := .printed (by decide) (.printed (by decide) first)
    exact .printed (by decide) ((marked.append _ (printed_quoted name)).lineBreak_succ level)

end

/-- The text of a plain value is laid out. -/
theorem laidOut_render {value : Value} (plain : value.Plain) : LaidOut value.render.toList := by
  -- The text of the whole value has nothing behind it.
  rw [Value.render, String.toList_ofList]
  exact laidOut_pretty 0 .nil value plain

mutual

/-- What stands behind a pretty text has no influence on it. -/
theorem pretty_append (level : Nat) (behind more : List Char) :
    ∀ value : Value, value.pretty level (behind ++ more) = value.pretty level behind ++ more
  -- A pretty text is built in front of what stands behind it, so that is only passed on.
  | .null => rfl
  | .bool true => rfl
  | .bool false => rfl
  | .natural n => by simp [Value.pretty]
  | .numeral literal => by simp [Value.pretty]
  | .string text => by simp [Value.pretty]
  | .array [] => rfl
  | .array (item :: items) => by
    have closing : lineBreak level (']' :: (behind ++ more)) =
        lineBreak level (']' :: behind) ++ more := by
      simp [lineBreak]
    simp only [Value.pretty, closing, prettyItems_append, pretty_append _ _ _ item]
    simp [lineBreak]
  | .object [] => rfl
  | .object ((name, value) :: members) => by
    have closing : lineBreak level ('\x7d' :: (behind ++ more)) =
        lineBreak level ('\x7d' :: behind) ++ more := by
      simp [lineBreak]
    simp only [Value.pretty, closing, prettyMembers_append, pretty_append _ _ _ value]
    simp [lineBreak]

/-- What stands behind further items has no influence on them. -/
theorem prettyItems_append (level : Nat) (behind more : List Char) :
    ∀ items : List Value,
      prettyItems level (behind ++ more) items = prettyItems level behind items ++ more
  -- Each item is built in front of the items behind it.
  | [] => rfl
  | item :: items => by
    simp only [prettyItems, prettyItems_append _ _ _ items, pretty_append _ _ _ item]
    simp [lineBreak]

/-- What stands behind further members has no influence on them. -/
theorem prettyMembers_append (level : Nat) (behind more : List Char) :
    ∀ members : List (Text × Value),
      prettyMembers level (behind ++ more) members = prettyMembers level behind members ++ more
  -- Each member is built in front of the members behind it.
  | [] => rfl
  | (name, value) :: members => by
    simp only [prettyMembers, prettyMembers_append _ _ _ members, pretty_append _ _ _ value]
    simp [lineBreak]

end

/-- The text of a plain value on a line of its own reads back as that value. -/
theorem parse?_render_line {value : Value} (plain : value.Plain) :
    Value.parse? (value.render ++ "\n") = some value := by
  -- The line feed is white space, of which the reader makes no token.
  have ends : EndsNumber ['\n'] := by simp [EndsNumber]
  have line : (value.render ++ "\n").toList = value.pretty 0 ['\n'] := by
    rw [String.toList_append, Value.render, String.toList_ofList]
    exact (pretty_append 0 [] ['\n'] value).symm
  have nothing : tokens? ['\n'] = some [] := by
    rw [tokens?_blank (by decide)]
    simp [tokens?, Recogniser.readAll?, Recogniser.readFrom?]
  rw [Value.parse?, line, tokens?_pretty 0 ['\n'] ends value plain, nothing]
  simp [ofTokens?_tokens]

end Stocktake.Json
