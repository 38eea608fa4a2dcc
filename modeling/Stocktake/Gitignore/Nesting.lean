import Stocktake.Gitignore.Pattern

/-! How deep a pattern nests once each of its parts is spelled out by sequences and choices. -/

namespace Stocktake.Gitignore

/-- How deep a pattern may nest. -/
def nestingLimit : Nat :=
  250

/-- The number of members by which a range is spelled out in a class of bytes. -/
def rangeSize (range : CharRange) : Nat :=
  let first := (utf8Encode [range.first]).length
  if range.first == range.last then first
  else first + (utf8Encode [range.last]).length - 1

/-- Several members of a class are a level within it. -/
def classDepth (ranges : List CharRange) : Nat :=
  if ranges.foldl (fun size range => size + rangeSize range) 0 ≤ 1 then 1 else 2

/-- The number of items that a part adds to a sequence. -/
def Part.width : Part → Nat
  | .exactly c => (utf8Encode [c]).length
  -- A slash, and anything behind it.
  | .trailing => 2
  | .group [] => 0
  | _ => 1

/-- The number of items in a sequence of parts. -/
def widthOf (parts : List Part) : Nat :=
  parts.foldl (fun width part => width + part.width) 0

/-- A sequence of several items is a level around them. -/
def sequenceDepth (width inner : Nat) : Nat :=
  if width ≤ 1 then inner else inner + 1

mutual

/-- How deep a part nests. -/
def Part.depth : Part → Nat
  | .exactly _ => 0
  | .anyByte => 1
  -- A class that is repeated.
  | .anyName => 2
  | .trailing => 1
  -- A group of two branches, one of them a sequence that repeats something.
  | .leading => 4
  | .between => 4
  | .among _ ranges => classDepth ranges
  | .group [] => 0
  | .group [branch] => sequenceDepth (widthOf branch) (deepestPart branch) + 1
  -- Several branches are a level within their group.
  | .group branches => deepestBranch branches + 2

/-- How deep the deepest of some parts nests. -/
def deepestPart : List Part → Nat
  | [] => 0
  | part :: parts => max part.depth (deepestPart parts)

/-- How deep the deepest of some branches nests. -/
def deepestBranch : List (List Part) → Nat
  | [] => 0
  | branch :: branches =>
    max (sequenceDepth (widthOf branch) (deepestPart branch)) (deepestBranch branches)

end

/-- How deep a pattern nests; between the two ends of a path it always is a sequence. -/
def Pattern.depth (pattern : Pattern) : Nat :=
  deepestPart pattern + 1

end Stocktake.Gitignore
