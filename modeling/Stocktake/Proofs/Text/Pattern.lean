import Stocktake.Text.Pattern

/-! The ways in which a text can be read by a pattern are the ways of taking the text apart. -/

namespace Stocktake

namespace Pattern

variable {takes : Char → Bool} {text : List Char} {way : Way}

/-- Behind characters of a class there can be any rest that has nothing but such characters before
it. -/
theorem mem_restsBehind {rest : List Char} :
    rest ∈ restsBehind takes text ↔ ∃ run, (∀ c ∈ run, takes c = true) ∧ text = run ++ rest := by
  -- A run begins with the first character of the text, or is empty.
  induction text with
  | nil =>
    simp only [restsBehind, List.mem_singleton, List.nil_eq, List.append_eq_nil_iff]
    constructor
    · rintro rfl
      exact ⟨[], by simp, rfl, rfl⟩
    · rintro ⟨_, _, _, rfl⟩
      rfl
  | cons c text ih =>
    rw [restsBehind]
    constructor
    · intro member
      split at member
      · rename_i taken
        rcases List.mem_append.mp member with further | last
        · obtain ⟨run, all, rfl⟩ := ih.mp further
          exact ⟨c :: run, by simpa [taken] using all, rfl⟩
        · exact ⟨[], by simp, by simp [List.mem_singleton.mp last]⟩
      · exact ⟨[], by simp, by simp [List.mem_singleton.mp member]⟩
    · rintro ⟨run, all, same⟩
      cases run with
      | nil =>
        subst same
        split <;> simp
      | cons first run =>
        simp only [List.cons_append, List.cons.injEq] at same
        obtain ⟨rfl, same⟩ := same
        rw [if_pos (all c List.mem_cons_self)]
        apply List.mem_append_left
        exact ih.mpr ⟨run, fun d member => all d (List.mem_cons_of_mem _ member), same⟩

/-- One character is read. -/
theorem mem_ways_one :
    way ∈ (one takes).ways text ↔ way.kept = none ∧ ∃ c, takes c = true ∧ text = c :: way.rest := by
  -- The first character is taken or there is no way to read.
  obtain ⟨kept, rest⟩ := way
  cases text with
  | nil => simp [ways]
  | cons c text =>
    rw [ways]
    by_cases taken : takes c = true
    · simp only [if_pos taken, List.mem_singleton, Way.mk.injEq, List.cons.injEq]
      constructor
      · rintro ⟨rfl, rfl⟩
        exact ⟨rfl, c, taken, rfl, rfl⟩
      · rintro ⟨rfl, _, _, _, rfl⟩
        exact ⟨rfl, rfl⟩
    · simp only [if_neg taken, List.not_mem_nil, List.cons.injEq, false_iff]
      rintro ⟨_, _, taken', rfl, _⟩
      exact taken taken'

/-- Any number of characters are read. -/
theorem mem_ways_many :
    way ∈ (many takes).ways text ↔
      way.kept = none ∧ ∃ run, (∀ c ∈ run, takes c = true) ∧ text = run ++ way.rest := by
  -- Each rest behind a run of such characters is one way to read.
  obtain ⟨kept, rest⟩ := way
  simp only [ways, List.mem_map, Way.mk.injEq, ← mem_restsBehind]
  constructor
  · rintro ⟨rest', member, rfl, rfl⟩
    exact ⟨rfl, member⟩
  · rintro ⟨rfl, member⟩
    exact ⟨rest, member, rfl, rfl⟩

/-- At the end of a line nothing is read. -/
theorem mem_ways_lineEnd :
    way ∈ lineEnd.ways text ↔
      way.kept = none ∧ text = way.rest ∧ way.rest.head?.all (· == '\n') = true := by
  -- The pattern only looks at the next character.
  obtain ⟨kept, rest⟩ := way
  rw [ways]
  by_cases ends : text.head?.all (· == '\n') = true
  · simp only [if_pos ends, List.mem_singleton, Way.mk.injEq]
    constructor
    · rintro ⟨rfl, rfl⟩
      exact ⟨rfl, rfl, ends⟩
    · rintro ⟨rfl, rfl, _⟩
      exact ⟨rfl, rfl⟩
  · simp only [if_neg ends, List.not_mem_nil, false_iff]
    rintro ⟨_, rfl, ends'⟩
    exact ends ends'

/-- The second of two patterns reads what the first leaves, and keeps something in its place. -/
theorem mem_ways_seq {first second : Pattern} :
    way ∈ (seq first second).ways text ↔
      ∃ before ∈ first.ways text, ∃ after ∈ second.ways before.rest,
        way = ⟨after.kept <|> before.kept, after.rest⟩ := by
  -- Each way of the first pattern is followed by each way of the second one.
  simp only [ways, List.mem_flatMap, List.mem_map, eq_comm]

/-- A group keeps what is read by the pattern inside. -/
theorem mem_ways_group {inner : Pattern} :
    way ∈ (group inner).ways text ↔
      ∃ inside ∈ inner.ways text,
        way = ⟨some (text.take (text.length - inside.rest.length)), inside.rest⟩ := by
  -- Each way of the inner pattern is one way of the group.
  simp only [ways, List.mem_map, eq_comm]

end Pattern

end Stocktake
