import Stocktake.Text.Recogniser

/-! Patterns describe what a text goes on with. A text can often be read by a pattern in several
ways; these have an order of preference, and the first of them counts. -/

namespace Stocktake

/-- What a text may go on with. -/
inductive Pattern
  /-- One character of a class. -/
  | one (takes : Char → Bool)
  /-- Any number of characters of a class, preferably many. -/
  | many (takes : Char → Bool)
  /-- Nothing, at the end of the text or of one of its lines. -/
  | lineEnd
  /-- Two patterns one behind the other. -/
  | seq (first second : Pattern)
  /-- A pattern that keeps what is read by it. -/
  | group (inner : Pattern)

/-- A way in which a text is read: what is kept of it, and the text behind what is read. -/
structure Way where
  kept : Option (List Char)
  rest : List Char
  deriving DecidableEq, Repr

namespace Pattern

/-- What can be left of a text behind characters of a class, from the least on. -/
def restsBehind (takes : Char → Bool) : List Char → List (List Char)
  | [] => [[]]
  | c :: text => if takes c then restsBehind takes text ++ [c :: text] else [c :: text]

/-- The ways in which a text can be read by a pattern, from the preferred one on. -/
def ways : Pattern → List Char → List Way
  | one _, [] => []
  | one takes, c :: text => if takes c then [⟨none, text⟩] else []
  | many takes, text => (restsBehind takes text).map fun rest => ⟨none, rest⟩
  | lineEnd, text => if text.head?.all (· == '\n') then [⟨none, text⟩] else []
  | seq first second, text =>
    -- The second pattern is tried behind each way of the first before the next one counts.
    (first.ways text).flatMap fun before =>
      (second.ways before.rest).map fun after => ⟨after.kept <|> before.kept, after.rest⟩
  | group inner, text =>
    (inner.ways text).map fun way =>
      ⟨some (text.take (text.length - way.rest.length)), way.rest⟩

/-- The least number of characters that are read by a pattern. -/
def least : Pattern → Nat
  | one _ => 1
  | many _ => 0
  | lineEnd => 0
  | seq first second => first.least + second.least
  | group inner => inner.least

/-- Reading takes nothing back. -/
theorem length_of_mem_restsBehind {takes : Char → Bool} {text rest : List Char}
    (member : rest ∈ restsBehind takes text) : rest.length ≤ text.length := by
  -- Each rest leaves out the characters that were taken, and the last leaves out none.
  induction text with
  | nil => simp [List.mem_singleton.mp member]
  | cons c text ih =>
    rw [restsBehind] at member
    split at member
    · rcases List.mem_append.mp member with further | last
      · exact Nat.le_succ_of_le (ih further)
      · simp [List.mem_singleton.mp last]
    · simp [List.mem_singleton.mp member]

/-- A pattern reads at least its least number of characters. -/
theorem length_of_mem_ways {pattern : Pattern} {text : List Char} {way : Way}
    (member : way ∈ pattern.ways text) : way.rest.length + pattern.least ≤ text.length := by
  -- The characters of two patterns add up, and a group reads what is inside.
  induction pattern generalizing text way with
  | one takes =>
    cases text with
    | nil => simp [ways] at member
    | cons c text =>
      rw [ways] at member
      split at member
      · simp [List.mem_singleton.mp member, least]
      · simp at member
  | many takes =>
    obtain ⟨rest, among, rfl⟩ := List.mem_map.mp member
    exact length_of_mem_restsBehind among
  | lineEnd =>
    rw [ways] at member
    split at member
    · simp [List.mem_singleton.mp member, least]
    · simp at member
  | seq first second ih ih' =>
    obtain ⟨before, earlier, among⟩ := List.mem_flatMap.mp member
    obtain ⟨after, later, rfl⟩ := List.mem_map.mp among
    have bound := ih earlier
    have bound' := ih' later
    simp only [least]
    omega
  | group inner ih =>
    obtain ⟨inside, among, rfl⟩ := List.mem_map.mp member
    have bound := ih among
    exact bound

/-- Recognises what a pattern keeps of a text, when the pattern reads something at all. -/
def recogniser (pattern : Pattern) (reads : 0 < pattern.least) : Recogniser (List Char) where
  front? text := (pattern.ways text).head?.map fun way => (way.kept.getD [], way.rest)
  shorter := by
    intro text item rest read
    obtain ⟨way, first, same⟩ := Option.map_eq_some_iff.mp read
    have bound := length_of_mem_ways (List.mem_of_mem_head? first)
    rw [← (Prod.mk.inj same).2]
    omega

end Pattern

end Stocktake
