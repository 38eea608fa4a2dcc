/-! White space as Unicode defines it, around texts, and the trimming of texts by a class of
characters. -/

namespace Stocktake

/-- A character is blank when it has the Unicode property White_Space. -/
def isBlank (c : Char) : Bool :=
  let code := c.toNat
  -- The controls from tab to carriage return, the space, and the separators of all other blocks.
  (9 ≤ code && code ≤ 13) || code == 0x20 || code == 0x85 || code == 0xA0 || code == 0x1680 ||
    (0x2000 ≤ code && code ≤ 0x200A) || code == 0x2028 || code == 0x2029 || code == 0x202F ||
    code == 0x205F || code == 0x3000

/-- Removes the characters of a class from both ends of a text. -/
def stripEnds (drops : Char → Bool) (text : List Char) : List Char :=
  ((text.dropWhile drops).reverse.dropWhile drops).reverse

/-- Removes white space from both ends of a text. -/
def trim (text : List Char) : List Char :=
  stripEnds isBlank text

/-- Every character of a text is blank, as it is for the empty text. -/
def allBlank (text : List Char) : Bool :=
  text.all isBlank

/-- White space around a text. -/
structure Padding where
  before : List Char := []
  behind : List Char := []
  blankBefore : allBlank before = true := by decide
  blankBehind : allBlank behind = true := by decide

/-- A text with white space around it. -/
def Padding.around (padding : Padding) (text : List Char) : List Char :=
  padding.before ++ (text ++ padding.behind)

/-- Before the text there is only white space. -/
theorem Padding.isBlank_before (padding : Padding) : ∀ c ∈ padding.before, isBlank c = true :=
  -- This is the condition a padding carries, read character by character.
  List.all_eq_true.mp padding.blankBefore

/-- Behind the text there is only white space. -/
theorem Padding.isBlank_behind (padding : Padding) : ∀ c ∈ padding.behind, isBlank c = true :=
  -- As before the text, the padding carries the condition.
  List.all_eq_true.mp padding.blankBehind

end Stocktake
