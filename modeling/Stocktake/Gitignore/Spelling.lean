import Stocktake.Gitignore.Pattern

/-! What a pattern spells once its groups are written as briefly as they can be. -/

namespace Stocktake.Gitignore

/-- Adds a span to spans before it, the last first, and joins it to one that it touches. -/
def addSpan : List Span → Span → List Span
  | before :: others, span =>
    if span.first ≤ before.last + 1 then ⟨before.first, max before.last span.last⟩ :: others
    else span :: before :: others
  | [], span => [span]

/-- The fewest spans that hold the same numbers, in ascending order. -/
def joinSpans (spans : List Span) : List Span :=
  ((spans.mergeSort fun one other => one.first ≤ other.first).foldl addSpan []).reverse

/-- The spans of the bytes from a given one on that ascending spans do not hold. -/
def gapsFrom (start : Nat) : List Span → List Span
  | [] => if start < UInt8.size then [⟨start, UInt8.size - 1⟩] else []
  | span :: spans =>
    if start < span.first then ⟨start, span.first - 1⟩ :: gapsFrom (span.last + 1) spans
    else gapsFrom (span.last + 1) spans

/-- The spans of a class of bytes. -/
def classSpans (negated : Bool) (ranges : List CharRange) : List Span :=
  let spans := joinSpans (ranges.flatMap byteSpans)
  if negated then gapsFrom 0 spans else spans

/-- Spans that hold numbers of seven bits only. -/
def areAscii (spans : List Span) : Bool :=
  spans.all (·.last < 128)

/-- What a pattern spells. -/
inductive Spelling
  | word (bytes : Bytes)
  | byteIn (spans : List Span)
  | charIn (spans : List Span)
  | optional (inner : Spelling)
  /-- Any number of times. -/
  | repeated (inner : Spelling)
  | inTurn (parts : List Spelling)
  | either (branches : List Spelling)
  deriving Repr

namespace Spelling

/-- A byte out of ascending spans; the only one is a word. -/
def ofByteSpans : List Span → Spelling
  | [span] => if span.first = span.last then word [UInt8.ofNat span.first] else byteIn [span]
  | spans => byteIn spans

/-- A character out of ascending spans; the only one is a word. -/
def ofCharSpans : List Span → Spelling
  | [span] =>
    if span.first = span.last then word (utf8Encode [Char.ofNat span.first]) else charIn [span]
  | spans => charIn spans

/-- The span of the character that a spelling is. -/
def charSpan? : Spelling → Option Span
  | word bytes =>
    match utf8Decode? bytes with
    | some [c] => some (.single c.toNat)
    | _ => none
  | _ => none

/-- The spans of a class that can stand for characters. -/
def charSpans? : Spelling → Option (List Span)
  | charIn spans => some spans
  | byteIn spans => if areAscii spans then some spans else none
  | _ => none

/-- The spans of a class that can stand for bytes. -/
def byteSpans? : Spelling → Option (List Span)
  | byteIn spans => some spans
  | charIn spans => if areAscii spans then some spans else none
  | _ => none

/-- The bytes of a word. -/
def word? : Spelling → Option Bytes
  | word bytes => some bytes
  | _ => none

/-- The parts of a sequence. -/
def parts : Spelling → List Spelling
  | inTurn parts => parts
  | _ => []

/-- The parts that a spelling adds to a sequence around it. -/
def asParts : Spelling → List Spelling
  | inTurn parts => parts
  | spelling => [spelling]

/-- The branches that a spelling adds to a choice around it. -/
def asBranches : Spelling → List Spelling
  | either branches => branches
  | spelling => [spelling]

/-- Puts a part in front of others; words that follow each other are one word. -/
def prepend : Spelling → List Spelling → List Spelling
  | word bytes, word others :: parts => word (bytes ++ others) :: parts
  | part, parts => part :: parts

/-- The parts of a sequence of spellings. -/
def join (spellings : List Spelling) : List Spelling :=
  (spellings.flatMap asParts).foldr prepend []

/-- A sequence of spellings; one alone is that one. -/
def sequence (spellings : List Spelling) : Spelling :=
  match join spellings with
  | [spelling] => spelling
  | parts => inTurn parts

/-- The class that branches make up when all of them are characters, or all of them classes. -/
def merged? (branches : List Spelling) : Option Spelling :=
  ((branches.mapM charSpan?).map fun spans => ofCharSpans (joinSpans spans)) <|>
    ((branches.mapM charSpans?).map fun classes => ofCharSpans (joinSpans classes.flatten)) <|>
    ((branches.mapM byteSpans?).map fun classes => ofByteSpans (joinSpans classes.flatten))

mutual

/-- Spellings that are written alike. -/
def isSame : Spelling → Spelling → Bool
  | word bytes, word others => bytes == others
  | byteIn spans, byteIn others => spans == others
  | charIn spans, charIn others => spans == others
  | optional inner, optional other => isSame inner other
  | repeated inner, repeated other => isSame inner other
  | inTurn parts, inTurn others => areSame parts others
  | either branches, either others => areSame branches others
  | _, _ => false

/-- Lists of spellings that are written alike. -/
def areSame : List Spelling → List Spelling → Bool
  | [], [] => true
  | spelling :: spellings, other :: others => isSame spelling other && areSame spellings others
  | _, _ => false

end

/-- The parts with which two sequences begin alike. -/
def commonStart : List Spelling → List Spelling → List Spelling
  | part :: parts, other :: others =>
    if isSame part other then part :: commonStart parts others else []
  | _, _ => []

/-- The parts with which several branches, all of them sequences, begin alike. -/
def sharedStart : List Spelling → List Spelling
  | [] => []
  | [_] => []
  | branch :: branches =>
    branches.foldl (fun shared other => commonStart shared other.parts) branch.parts

/-- A choice between spellings; one alone is that one. -/
def choice (spellings : List Spelling) : Spelling :=
  match spellings.flatMap asBranches with
  | [spelling] => spelling
  | branches => (merged? branches).getD (either branches)

/-- A choice between spellings, with what they begin with in common written once. -/
def factored (spellings : List Spelling) : Spelling :=
  let branches := spellings.flatMap asBranches
  let shared := sharedStart branches
  if shared.isEmpty then choice branches
  else
    let rests := branches.map fun branch => sequence (branch.parts.drop shared.length)
    sequence (shared ++ [choice rests])

/-- A slash. -/
def slash : Spelling :=
  word [slashByte]

/-- A byte other than a slash. -/
def nameByte : Spelling :=
  byteIn (gapsFrom 0 [.single slashByte.toNat])

/-- Any bytes. -/
def anything : Spelling :=
  repeated (byteIn [⟨0, UInt8.size - 1⟩])

end Spelling

open Spelling

mutual

/-- What a part spells. -/
def Part.spelling : Part → Spelling
  | .exactly c => word (utf8Encode [c])
  | .anyByte => nameByte
  | .anyName => repeated nameByte
  | .leading => either [optional slash, inTurn [anything, slash]]
  | .trailing => inTurn [slash, anything]
  | .between => either [slash, inTurn [slash, anything, slash]]
  | .among negated ranges => ofByteSpans (classSpans negated ranges)
  | .group [] => inTurn []
  | .group branches => factored (spellingsOfBranches branches)

/-- What the parts of a branch spell. -/
def spellingsOf : List Part → List Spelling
  | [] => []
  | part :: parts => part.spelling :: spellingsOf parts

/-- What branches spell. -/
def spellingsOfBranches : List (List Part) → List Spelling
  | [] => []
  | branch :: branches => sequence (spellingsOf branch) :: spellingsOfBranches branches

end

/-- What a pattern spells between its two ends; directories alone stand for anything. -/
def Pattern.spelled : Pattern → List Spelling
  | [.leading] => [anything]
  | parts => join (spellingsOf parts)

end Stocktake.Gitignore
