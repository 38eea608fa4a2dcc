import Stocktake.Gitignore.Spelling
import Stocktake.Gitignore.Trie

/-! How much room the patterns of a file take when each is spelled out state by state. -/

namespace Stocktake.Gitignore

/-- The bytes that patterns may take up together. -/
def sizeLimit : Nat :=
  10485760

/-- The bytes of a state, which reads a given byte or none. -/
def stateSize : Nat :=
  32

/-- The bytes of a way out of a state on one span of bytes out of several. -/
def arcSize : Nat :=
  8

/-- The bytes of a way out of a state that reads nothing. -/
def jumpSize : Nat :=
  4

/-- The way in which paths are read; patterns are spelled out for both. -/
inductive Direction
  | forwards
  | backwards
  deriving DecidableEq, Repr

/-- The size of reading one byte out of a number of spans. -/
def spansSize (count : Nat) : Nat :=
  2 * stateSize + arcSize * count

/-- The size of a choice between a number of branches of a given size together. -/
def choiceSize (count inner : Nat) : Nat :=
  2 * stateSize + jumpSize * count + inner

/-- The size of reading something any number of times. -/
def repeatedSize (inner : Nat) : Nat :=
  stateSize + 2 * jumpSize + inner

/-- The number of endings that a number of following bytes can have. -/
def blockSize : Nat → Nat
  | 0 => 1
  | following + 1 => 64 * blockSize following

/-- The bytes, span by span, of the numbers between two that a number of bytes follow a lead in. -/
def spanSequences : (following mark first last : Nat) → List (List Span)
  | 0, mark, first, last => [[⟨mark + first, mark + last⟩]]
  | following + 1, mark, first, last =>
    let block := blockSize (following + 1)
    let under (lead first last : Nat) : List (List Span) :=
      (spanSequences following 0x80 first last).map (.single (mark + lead) :: ·)
    let low := first / block
    let high := last / block
    if low = high then under low (first % block) (last % block)
    else
      -- Only whole blocks stand together; those at the ends may be cut.
      let cutFirst := if first % block = 0 then [] else under low (first % block) (block - 1)
      let cutLast := if last % block = block - 1 then [] else under high 0 (last % block)
      let start := if cutFirst.isEmpty then low else low + 1
      let stop := if cutLast.isEmpty then high + 1 else high
      let whole :=
        if start < stop then
          [⟨mark + start, mark + stop - 1⟩ :: List.replicate (following + 1) ⟨0x80, 0xBF⟩]
        else []
      cutFirst ++ whole ++ cutLast

/-- The characters that one number of bytes encodes. -/
structure EncodingLength where
  characters : Span
  /-- What is added to the bits of the first byte. -/
  mark : Nat
  /-- The number of bytes behind the first. -/
  following : Nat

/-- The lengths of encoded characters. -/
def encodingLengths : List EncodingLength :=
  [⟨⟨0, 0x7F⟩, 0, 0⟩, ⟨⟨0x80, 0x7FF⟩, 0xC0, 1⟩, ⟨⟨0x800, 0xFFFF⟩, 0xE0, 2⟩,
    ⟨⟨0x10000, 0x10FFFF⟩, 0xF0, 3⟩]

/-- The bytes of the characters of a span. -/
def charSequences (span : Span) : List (List Span) :=
  encodingLengths.flatMap fun length =>
    let first := max span.first length.characters.first
    let last := min span.last length.characters.last
    if first ≤ last then spanSequences length.following length.mark first last else []

/-- Sequences that stand side by side and begin alike, together. -/
def byFirst (sequences : List (List Span)) : List (List (List Span)) :=
  sequences.splitBy fun one other => one.head? == other.head?

/-- What can follow each beginning of sequences up to a length. -/
def continuations : Nat → List (List Span) → List (List (List Span))
  | 0, _ => []
  | length + 1, sequences =>
    let rests := sequences.filter (!·.isEmpty)
    if rests.isEmpty then []
    else
      rests :: (byFirst rests).flatMap fun alike => continuations length (alike.map List.tail)

/-- The size of reading a character out of spans that need more than seven bits. -/
def charsSize (direction : Direction) (spans : List Span) : Nat :=
  let sequences := spans.flatMap charSequences
  let states := continuations 4 sequences
  let arcs (states : List (List (List Span))) : Nat :=
    states.foldl (fun count state => count + (byFirst state).length) 0
  match direction with
  -- States from which the same bytes follow are one.
  | .forwards =>
    let distinct := states.eraseDups
    stateSize + stateSize * distinct.length + arcSize * arcs distinct
  | .backwards => choiceSize sequences.length (stateSize * arcs states)

/-- The size of the ways on that were added since a word ended, and a jump to them. -/
def arcsSize (count : Nat) : Nat :=
  if count = 0 then 0
  else if count = 1 then stateSize + jumpSize
  else stateSize + arcSize * count + jumpSize

/-- The size of the ways on in a trie, behind a number of them that were counted already. -/
def Trie.sizeFrom (count : Nat) : Trie → Nat
  | .nowhere => arcsSize count
  | .wordEnd before => arcsSize count + jumpSize + before.sizeFrom 0
  | .arc _ below others =>
    (if below.isLeaf then 0 else stateSize + below.sizeFrom 0) + others.sizeFrom (count + 1)

/-- The size of a choice between words, which share what is read first. -/
def wordsSize (direction : Direction) (words : List Bytes) : Nat :=
  let read :=
    match direction with
    | .forwards => words
    | .backwards => words.map List.reverse
  2 * stateSize + (Trie.ofWords read).sizeFrom 0

mutual

/-- The size of a spelling. -/
def Spelling.size (direction : Direction) : Spelling → Nat
  | .word bytes => stateSize * bytes.length
  | .byteIn spans => spansSize spans.length
  | .charIn spans =>
    if areAscii spans then spansSize spans.length else charsSize direction spans
  | .optional inner => choiceSize 2 (inner.size direction)
  | .repeated inner => repeatedSize (inner.size direction)
  | .inTurn [] => stateSize
  | .inTurn parts => sizeOfAll direction parts
  | .either branches =>
    match branches.mapM Spelling.word? with
    | some words => wordsSize direction words
    | none => choiceSize branches.length (sizeOfAll direction branches)

/-- The size of spellings together. -/
def sizeOfAll (direction : Direction) : List Spelling → Nat
  | [] => 0
  | spelling :: spellings => spelling.size direction + sizeOfAll direction spellings

end

/-- The states of a pattern itself: its two ends, the note of its match, and that of its place. -/
def ownStates : Direction → Nat
  | .forwards => 5
  | .backwards => 3

/-- The size of a pattern. -/
def Pattern.size (direction : Direction) (pattern : Pattern) : Nat :=
  ownStates direction * stateSize + sizeOfAll direction pattern.spelled

/-- The size of a choice among patterns, which is needed only when there are several. -/
def sizeTogether (direction : Direction) (patterns : List Pattern) : Nat :=
  let inner := (patterns.map (Pattern.size direction)).foldl (· + ·) 0
  stateSize + if patterns.length ≤ 1 then inner else choiceSize patterns.length inner

/-- Patterns that are spelled out together fit in both directions. -/
def fitAtOnce (patterns : List Pattern) : Bool :=
  sizeTogether .forwards patterns ≤ sizeLimit && sizeTogether .backwards patterns ≤ sizeLimit

/-- A part that stands for a character other than a slash. -/
def Part.isNameCharacter : Part → Bool
  | .exactly c => c != '/'
  | _ => false

/-- A part that stands for one character alone. -/
def Part.isCharacter : Part → Bool
  | .exactly _ => true
  | _ => false

/-- A part that stands for a dot. -/
def Part.isDot : Part → Bool
  | .exactly c => c == '.'
  | _ => false

/-- Characters without wildcards, and an extension alone, are looked up and not spelled out. -/
def Pattern.isLookedUp : Pattern → Bool
  | .leading :: .anyName :: .exactly '.' :: parts =>
    parts.all fun part => part.isNameCharacter && !part.isDot
  | .leading :: parts => !parts.isEmpty && parts.all Part.isCharacter
  | parts => parts.all Part.isCharacter

/-- A pattern that ends in an extension is spelled out apart from the others. -/
def Pattern.standsApart (pattern : Pattern) : Bool :=
  match pattern.reverse.dropWhile fun part => part.isNameCharacter && !part.isDot with
  | part :: _ => part.isDot
  | [] => false

/-- Patterns fit when those that stand apart do one by one, and the others do together. -/
def fitTogether (patterns : List Pattern) : Bool :=
  let spelled := patterns.filter (!·.isLookedUp)
  let (apart, joined) := spelled.partition Pattern.standsApart
  apart.all (fun pattern => fitAtOnce [pattern]) && fitAtOnce joined

end Stocktake.Gitignore
