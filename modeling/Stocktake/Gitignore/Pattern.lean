import Stocktake.Glob
import Stocktake.Text.Utf8

/-! Patterns of ignore files; their wildcards stop at slashes, and they are matched byte by byte. -/

namespace Stocktake.Gitignore

/-- A part of a pattern. -/
inductive Part
  | exactly (c : Char)
  | anyByte
  /-- Any number of bytes that are no slash. -/
  | anyName
  /-- The directories that a path may begin with. -/
  | leading
  /-- Everything below what stands before. -/
  | trailing
  /-- A slash, or directories between two slashes. -/
  | between
  | among (negated : Bool) (ranges : List CharRange)
  | group (branches : List (List Part))
  deriving Repr

/-- A pattern is a sequence of parts. -/
abbrev Pattern := List Part

/-- How the text behind an opening bracket reads as a class. -/
inductive ClassReading
  | closed (ranges : List CharRange) (rest : List Char)
  | unclosed
  /-- A range ends before it begins. -/
  | disordered

/-- Reads the ranges of a class behind those already read; a hyphen may wait for its end. -/
def readRanges (ranges : List CharRange) (waiting : Bool) : List Char → ClassReading
  | [] => .unclosed
  | c :: rest =>
    if c == ']' && !ranges.isEmpty then
      .closed ((if waiting then ⟨'-', '-'⟩ :: ranges else ranges).reverse) rest
    else if c == '-' && !ranges.isEmpty && !waiting then readRanges ranges true rest
    else
      match waiting, ranges with
      -- The character ends the range that the last member began.
      | true, range :: others =>
        if c < range.first then .disordered
        else readRanges (⟨range.first, c⟩ :: others) false rest
      | _, _ => readRanges (⟨c, c⟩ :: ranges) false rest

/-- A class takes up room. -/
theorem length_of_readRanges {ranges : List CharRange} {waiting : Bool} {text : List Char}
    {found : List CharRange} {rest : List Char}
    (read : readRanges ranges waiting text = .closed found rest) : rest.length < text.length := by
  -- The rest is what stands behind the bracket that closes the class.
  fun_induction readRanges ranges waiting text <;> simp_all <;> omega

/-- Reads a class, which is negated by a mark in front. -/
def readClass : List Char → Bool × ClassReading
  | '!' :: rest => (true, readRanges [] false rest)
  | '^' :: rest => (true, readRanges [] false rest)
  | text => (false, readRanges [] false text)

/-- A class takes up room, with or without a mark. -/
theorem length_of_readClass {text : List Char} {negated : Bool} {found : List CharRange}
    {rest : List Char} (read : readClass text = (negated, .closed found rest)) :
    rest.length < text.length := by
  -- The mark is one character more, and the ranges take up room in either case.
  unfold readClass at read
  split at read
  · exact Nat.lt_succ_of_lt (length_of_readRanges (Prod.mk.inj read).2)
  · exact Nat.lt_succ_of_lt (length_of_readRanges (Prod.mk.inj read).2)
  · exact length_of_readRanges (Prod.mk.inj read).2

/-- A group that is still open: its finished branches and what stands before it, both last first. -/
structure OpenGroup where
  branches : List (List Part)
  before : List Part

/-- A pattern of which a part has been read: the parts of the current branch, last first. -/
structure Draft where
  parts : List Part
  /-- The open groups around the branch, the innermost first. -/
  groups : List OpenGroup

/-- A group of no branches spells nothing. -/
def Part.isVoid : Part → Bool
  | .group [] => true
  | _ => false

namespace Draft

/-- Adds a part to the current branch. -/
def push (draft : Draft) (part : Part) : Draft :=
  { draft with parts := part :: draft.parts }

/-- Opens a group. -/
def openGroup (draft : Draft) : Draft :=
  ⟨[], ⟨[], draft.parts⟩ :: draft.groups⟩

/-- Begins the next branch of a group; outside of groups a comma stands for itself. -/
def nextBranch (draft : Draft) : Draft :=
  match draft.groups with
  | [] => draft.push (.exactly ',')
  | group :: outer =>
    ⟨[], { group with branches := draft.parts.reverse :: group.branches } :: outer⟩

/-- Closes a group, if one is open; branches that spell nothing do not count. -/
def closeGroup? (draft : Draft) : Option Draft :=
  match draft.groups with
  | [] => none
  | group :: outer =>
    let branches := (draft.parts.reverse :: group.branches).reverse
    some ⟨.group (branches.filter fun branch => !branch.all Part.isVoid) :: group.before, outer⟩

/-- The pattern that has been read, if no group is left open. -/
def finish? (draft : Draft) : Option Pattern :=
  if draft.groups.isEmpty then some draft.parts.reverse else none

/-- Two stars that stand beside a name match as one. -/
def pushStars (draft : Draft) : Draft :=
  (draft.push .anyName).push .anyName

/-- Two stars after a slash take the place of that slash, and join those before it. -/
def pushDirectories (draft : Draft) (last : Bool) : Draft :=
  match draft.parts with
  | .leading :: _ => draft
  | .trailing :: _ => draft
  -- The part that goes is the slash before the stars.
  | _ :: parts => { draft with parts := (if last then .trailing else .between) :: parts }
  | [] => draft

/-- Two stars can stand for directories when no name is in front of them. -/
def beginsComponent (draft : Draft) (previous : Option Char) : Bool :=
  draft.parts.isEmpty || previous == some '/' ||
    (!draft.groups.isEmpty && (previous == some ',' || previous == some '{'))

/-- Adds two stars, which stand for directories when no name is beside them. -/
def withStars (draft : Draft) (previous next : Option Char) : Draft :=
  let endsBranch := next.all fun c => !draft.groups.isEmpty && (c == ',' || c == '}')
  if !draft.beginsComponent previous then draft.pushStars
  else if draft.parts.isEmpty then
    if next.all (· == '/') then draft.push .leading else draft.pushStars
  else if next == some '/' then draft.pushDirectories false
  else if endsBranch then draft.pushDirectories true
  else draft.pushStars

end Draft

/-- Reads a pattern; once a bracket is found to stay open, brackets stand for themselves. -/
def parseFrom (draft : Draft) (previous : Option Char) (spelled : Bool) (text : List Char) :
    Option Pattern :=
  match text with
  | [] => draft.finish?
  | '?' :: rest => parseFrom (draft.push .anyByte) (some '?') spelled rest
  | '*' :: '*' :: '/' :: rest =>
    -- Stars for directories take the slash behind them along.
    if draft.beginsComponent previous then
      parseFrom (draft.withStars previous (some '/')) (some '/') spelled rest
    else parseFrom (draft.withStars previous (some '/')) (some '*') spelled ('/' :: rest)
  | '*' :: '*' :: rest =>
    parseFrom (draft.withStars previous rest.head?) (some '*') spelled rest
  | '*' :: rest => parseFrom (draft.push .anyName) (some '*') spelled rest
  | '{' :: rest => parseFrom draft.openGroup (some '{') spelled rest
  | '}' :: rest =>
    match draft.closeGroup? with
    | some draft => parseFrom draft (some '}') spelled rest
    | none => none
  | ',' :: rest => parseFrom draft.nextBranch (some ',') spelled rest
  | '\\' :: c :: rest => parseFrom (draft.push (.exactly c)) (some c) spelled rest
  | ['\\'] => none
  | '[' :: rest =>
    if spelled then parseFrom (draft.push (.exactly '[')) (some '[') spelled rest
    else
      match _read : readClass rest with
      | (negated, .closed ranges rest) =>
        parseFrom (draft.push (.among negated ranges)) (some ']') spelled rest
      -- The text is read again with the bracket as a plain character.
      | (_, .unclosed) => parseFrom (draft.push (.exactly '[')) (some '[') true rest
      | (_, .disordered) => none
  | c :: rest => parseFrom (draft.push (.exactly c)) (some c) spelled rest
termination_by text.length
decreasing_by
  all_goals try have := length_of_readClass (by assumption)
  all_goals simp_all only [List.length_cons]; omega

/-- Reads a pattern, none when it is malformed. -/
def parse? (text : List Char) : Option Pattern :=
  parseFrom ⟨[], []⟩ none false text

/-- The byte of a slash. -/
def slashByte : UInt8 :=
  47

/-- A span of numbers, given by its ends. -/
structure Span where
  first : Nat
  last : Nat
  deriving DecidableEq, Repr

/-- A span that holds a number. -/
def Span.holds (span : Span) (number : Nat) : Bool :=
  span.first ≤ number && number ≤ span.last

/-- The span of one number. -/
def Span.single (number : Nat) : Span :=
  ⟨number, number⟩

/-- The bytes that a range stands for: those of its ends, and what is between the nearest two. -/
def byteSpans (range : CharRange) : List Span :=
  let first := (utf8Encode [range.first]).map UInt8.toNat
  let last := (utf8Encode [range.last]).map UInt8.toNat
  if range.first == range.last then first.map .single
  else
    match first.getLast?, last.head? with
    | some low, some high => ⟨low, high⟩ :: (first ++ last).map .single
    | _, _ => []

mutual

/-- What a part reads. -/
def Part.wildcard : Part → Wildcard UInt8
  | .exactly c => .word (utf8Encode [c])
  | .anyByte => .one (· != slashByte)
  | .anyName => .many (· != slashByte)
  | .leading => .either .nothing (.through (· == slashByte))
  | .trailing => .inTurn [.one (· == slashByte), .many fun _ => true]
  | .between =>
    .inTurn [.one (· == slashByte), .either .nothing (.through (· == slashByte))]
  | .among negated ranges =>
    let spans := ranges.flatMap byteSpans
    .one fun byte => spans.any (·.holds byte.toNat) != negated
  | .group [] => .nothing
  | .group (branch :: branches) =>
    .either (.inTurn (wildcards branch)) (anyBranch branches)

/-- What the parts of a branch read. -/
def wildcards : List Part → List (Wildcard UInt8)
  | [] => []
  | part :: parts => part.wildcard :: wildcards parts

/-- What any of the branches of a group reads. -/
def anyBranch : List (List Part) → Wildcard UInt8
  | [] => .never
  | branch :: branches => .either (.inTurn (wildcards branch)) (anyBranch branches)

end

/-- A pattern matches a path when its parts can read all of its bytes. -/
def Pattern.matchesPath (pattern : Pattern) (path : String) : Bool :=
  match pattern with
  | [.leading] => true
  | _ => (Wildcard.inTurn (wildcards pattern)).matchesAll (utf8Encode path.toList)

end Stocktake.Gitignore
