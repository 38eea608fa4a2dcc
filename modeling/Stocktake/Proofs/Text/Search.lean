import Stocktake.Text.Recogniser

/-! A search from left to right selects items that do not overlap, and passes over no other items
than those that begin inside a selected one. Nothing else can be selected in this way. -/

namespace Stocktake

/-- An item that is found in a text, from one position up to another. -/
structure Finding (α : Type) where
  item : α
  start : Nat
  stop : Nat
  deriving DecidableEq, Repr

namespace Finding

variable {α : Type} {stands : Finding α → Prop}

/-- A selection among all the items that stand in a text. -/
structure IsSelection (stands : Finding α → Prop) (selected : List (Finding α)) : Prop where
  stand : ∀ finding ∈ selected, stands finding
  /-- The items come in the order of the text, and none of them overlaps another. -/
  apart : selected.Pairwise fun one next => one.stop ≤ next.start
  /-- An item that is left out begins behind the start of a selected one, and before its end. -/
  inside : ∀ finding, stands finding → finding ∈ selected ∨
    ∃ other ∈ selected, other.start < finding.start ∧ finding.start < other.stop

/-- A selection is one among the items that stand in a text, however these are described. -/
theorem IsSelection.congr {stands' : Finding α → Prop} {selected : List (Finding α)}
    (same : ∀ finding, stands finding ↔ stands' finding)
    (selection : IsSelection stands selected) : IsSelection stands' selected := by
  -- The two descriptions have the same items.
  have equal : stands = stands' := funext fun finding => propext (same finding)
  rw [← equal]
  exact selection

/-- Nothing is selected only where nothing stands. -/
theorem IsSelection.not_of_nil (selection : IsSelection stands []) (finding : Finding α) :
    ¬ stands finding := by
  intro standing
  -- The item would be selected, or begin inside one that is.
  rcases selection.inside finding standing with member | ⟨_, member, _⟩
  · cases member
  · cases member

/-- What comes behind the first item is a selection among the items behind it. -/
theorem IsSelection.tail {first : Finding α} {others : List (Finding α)}
    (long : ∀ finding, stands finding → finding.start < finding.stop)
    (selection : IsSelection stands (first :: others)) :
    IsSelection (fun finding => stands finding ∧ first.stop ≤ finding.start) others := by
  have apart := List.pairwise_cons.mp selection.apart
  constructor
  · intro finding member
    exact ⟨selection.stand finding (List.mem_cons_of_mem first member), apart.1 finding member⟩
  · exact apart.2
  · intro finding standing
    have wide := long first (selection.stand first List.mem_cons_self)
    -- The first item itself is too far ahead to be the finding, or to reach up to it.
    rcases selection.inside finding standing.1 with member | ⟨other, member, after, before⟩
    · rcases List.mem_cons.mp member with same | later
      · rw [same] at standing
        omega
      · exact .inl later
    · rcases List.mem_cons.mp member with same | later
      · rw [same] at before
        omega
      · exact .inr ⟨other, later, after, before⟩

/-- A selection among the items behind an item goes on from that item, when no other one begins
with it. -/
theorem IsSelection.cons {first : Finding α} {others : List (Finding α)} (standing : stands first)
    (only : ∀ finding, stands finding → finding.start = first.start → finding = first)
    (wide : first.start ≤ first.stop)
    (selection : IsSelection (fun finding => stands finding ∧ first.stop ≤ finding.start) others) :
    IsSelection (fun finding => stands finding ∧ first.start ≤ finding.start) (first :: others) := by
  constructor
  · intro finding member
    rcases List.mem_cons.mp member with same | later
    · rw [same]
      exact ⟨standing, Nat.le_refl first.start⟩
    · have behind := selection.stand finding later
      exact ⟨behind.1, by omega⟩
  · apply List.pairwise_cons.mpr
    refine ⟨?_, selection.apart⟩
    intro finding member
    exact (selection.stand finding member).2
  · intro finding standing'
    by_cases later : first.stop ≤ finding.start
    · -- Behind the first item the other selection decides.
      rcases selection.inside finding ⟨standing'.1, later⟩ with member | ⟨other, member, between⟩
      · exact .inl (List.mem_cons_of_mem first member)
      · exact .inr ⟨other, List.mem_cons_of_mem first member, between⟩
    · -- Before the end of the first item there is only this item, and what begins inside it.
      by_cases same : finding.start = first.start
      · rw [only finding standing'.1 same]
        exact .inl List.mem_cons_self
      · exact .inr ⟨first, List.mem_cons_self, by omega, by omega⟩

/-- No item stands before the first one that is selected. -/
theorem IsSelection.start_le {first : Finding α} {others : List (Finding α)}
    (long : ∀ finding, stands finding → finding.start < finding.stop)
    (selection : IsSelection stands (first :: others)) {finding : Finding α}
    (standing : stands finding) : first.start ≤ finding.start := by
  have wide := long first (selection.stand first List.mem_cons_self)
  have apart := (List.pairwise_cons.mp selection.apart).1
  -- All that is selected begins with the first item, or behind it.
  have ahead : ∀ other ∈ first :: others, first.start ≤ other.start := by
    intro other member
    rcases List.mem_cons.mp member with same | later
    · exact Nat.le_of_eq (by rw [same])
    · have := apart other later
      omega
  rcases selection.inside finding standing with member | ⟨other, member, after, _⟩
  · exact ahead finding member
  · have := ahead other member
    omega

/-- There is only one selection among items that take up room. -/
theorem IsSelection.unique {one other : List (Finding α)}
    (long : ∀ finding, stands finding → finding.start < finding.stop)
    (selection : IsSelection stands one) (selection' : IsSelection stands other) :
    one = other := by
  -- The first items are the same, and the others are selected among the items behind them.
  induction one generalizing stands other with
  | nil =>
    cases other with
    | nil => rfl
    | cons first others =>
      have standing := selection'.stand first List.mem_cons_self
      exact absurd standing (selection.not_of_nil first)
  | cons first others ih =>
    have standing := selection.stand first List.mem_cons_self
    cases other with
    | nil => exact absurd standing (selection'.not_of_nil first)
    | cons first' others' =>
      have standing' := selection'.stand first' List.mem_cons_self
      have ahead := selection.start_le long standing'
      have ahead' := selection'.start_le long standing
      -- One of two different items at the same position would have to begin behind it.
      have same : first' = first := by
        have wide := long first standing
        have apart := (List.pairwise_cons.mp selection.apart).1
        rcases selection.inside first' standing' with member | ⟨between, member, after, _⟩
        · rcases List.mem_cons.mp member with same | later
          · exact same
          · have := apart first' later
            omega
        · have := selection.start_le long (selection.stand between member)
          omega
      subst same
      have rest := selection.tail long
      have rest' := selection'.tail long
      rw [ih (fun finding behind => long finding behind.1) rest rest']

end Finding

namespace Recogniser

variable {α : Type} (recogniser : Recogniser α) (text : List Char)

/-- An item stands in a text where it is read, and ends where the text goes on behind it. -/
def StandsIn (finding : Finding α) : Prop :=
  recogniser.front? (text.drop finding.start) = some (finding.item, text.drop finding.stop) ∧
    finding.stop ≤ text.length

variable {recogniser text}

/-- An item at the front of a text comes before those behind it. -/
theorem findAll_of_front? {item : α} {rest : List Char}
    (read : recogniser.front? text = some (item, rest)) :
    recogniser.findAll text = item :: recogniser.findAll rest := by
  -- An item takes up room, so that the text has a first character.
  cases text with
  | nil => exact absurd (recogniser.shorter read) (Nat.not_lt_zero rest.length)
  | cons c text => rw [findAll_cons, read]

/-- A character with which no item begins is passed over. -/
theorem findAll_cons_of_none {c : Char} (read : recogniser.front? (c :: text) = none) :
    recogniser.findAll (c :: text) = recogniser.findAll text := by
  -- The search only asks whether an item begins there.
  rw [findAll_cons, read]

/-- An item that stands in a text takes up room. -/
theorem StandsIn.start_lt_stop {finding : Finding α} (standing : recogniser.StandsIn text finding) :
    finding.start < finding.stop := by
  -- The text behind the item is shorter than the text that begins with it.
  have shorter := recogniser.shorter standing.1
  have inside := standing.2
  simp only [List.length_drop] at shorter
  omega

/-- At a position at most one item stands. -/
theorem StandsIn.eq_of_start_eq {one other : Finding α} (standing : recogniser.StandsIn text one)
    (standing' : recogniser.StandsIn text other) (same : one.start = other.start) :
    one = other := by
  obtain ⟨item, start, stop⟩ := one
  obtain ⟨item', start', stop'⟩ := other
  obtain ⟨read, bound⟩ := standing
  obtain ⟨read', bound'⟩ := standing'
  simp only at same bound bound'
  subst same
  -- The same is read there, and the text goes on behind it at the same position.
  rw [read] at read'
  obtain ⟨items, rests⟩ := Prod.mk.inj (Option.some.inj read')
  have sizes := congrArg List.length rests
  simp only [List.length_drop] at sizes
  have stops : stop = stop' := by omega
  rw [show item = item' from items, stops]

/-- A recogniser leaves the end of a text when what is behind an item is a part of the text. -/
def LeavesEnd (recogniser : Recogniser α) : Prop :=
  ∀ text item rest, recogniser.front? text = some (item, rest) → rest <:+ text

/-- What is read at a position of a text stands there. -/
theorem LeavesEnd.standsIn (leaves : recogniser.LeavesEnd) {position : Nat} {item : α}
    {rest : List Char} (read : recogniser.front? (text.drop position) = some (item, rest)) :
    recogniser.StandsIn text ⟨item, position, text.length - rest.length⟩ := by
  -- What is left is a part of the whole text, too, and begins where its length says.
  have suffix := (leaves _ item rest read).trans (List.drop_suffix position text)
  refine ⟨?_, Nat.sub_le text.length rest.length⟩
  rw [← List.suffix_iff_eq_drop.mp suffix]
  exact read

/-- A search from a position on selects among the items that do not begin before it. -/
theorem LeavesEnd.exists_isSelection_from (leaves : recogniser.LeavesEnd) :
    ∀ room position, text.length = position + room → ∃ selected,
      recogniser.findAll (text.drop position) = selected.map Finding.item ∧
      Finding.IsSelection
        (fun finding => recogniser.StandsIn text finding ∧ position ≤ finding.start)
        selected := by
  -- The search goes on behind an item, or behind a character with which no item begins.
  intro room
  induction room using Nat.strongRecOn with
  | ind room ih =>
    intro position size
    cases behind : text.drop position with
    | nil =>
      refine ⟨[], by simp [findAll, findFrom], by simp, List.Pairwise.nil, ?_⟩
      -- At the end of the text there is no room for an item.
      intro finding standing
      have wide := standing.1.start_lt_stop
      have inside := standing.1.2
      have short := List.drop_eq_nil_iff.mp behind
      omega
    | cons c rest =>
      have whole := congrArg List.length behind
      simp only [List.length_drop, List.length_cons] at whole
      rw [findAll_cons]
      cases read : recogniser.front? (c :: rest) with
      | none =>
        obtain ⟨selected, found, selection⟩ := ih (room - 1) (by omega) (position + 1) (by omega)
        rw [← List.drop_drop, behind] at found
        refine ⟨selected, found, selection.congr ?_⟩
        intro finding
        constructor
        · intro standing
          exact ⟨standing.1, by omega⟩
        · intro standing
          -- An item at the position itself would have been read.
          have other : finding.start ≠ position := by
            intro same
            have here := standing.1.1
            rw [same, behind, read] at here
            cases here
          exact ⟨standing.1, by omega⟩
      | some found =>
        obtain ⟨item, left⟩ := found
        have shorter := recogniser.shorter read
        rw [← behind] at read
        have here := leaves.standsIn read
        have ends : text.drop (text.length - left.length) = left := by
          have reads := here.1
          rw [read] at reads
          exact (Prod.mk.inj (Option.some.inj reads)).2.symm
        simp only [List.length_cons] at shorter
        obtain ⟨selected, found, selection⟩ :=
          ih left.length (by omega) (text.length - left.length) (by omega)
        rw [ends] at found
        refine ⟨⟨item, position, text.length - left.length⟩ :: selected, ?_, ?_⟩
        · exact congrArg (item :: ·) found
        -- The item is the only one at its position, and the others are selected behind it.
        · apply Finding.IsSelection.cons here _ (by simp only; omega) selection
          intro finding standing same
          exact standing.eq_of_start_eq here same

/-- A search selects among all the items that stand in a text. -/
theorem LeavesEnd.exists_isSelection (leaves : recogniser.LeavesEnd) (text : List Char) :
    ∃ selected, recogniser.findAll text = selected.map Finding.item ∧
      Finding.IsSelection (recogniser.StandsIn text) selected := by
  obtain ⟨selected, found, selection⟩ :=
    leaves.exists_isSelection_from text.length 0 (Nat.zero_add text.length).symm
  refine ⟨selected, found, selection.congr ?_⟩
  -- No item begins before the start of the text.
  intro finding
  constructor
  · intro standing
    exact standing.1
  · intro standing
    exact ⟨standing, Nat.zero_le finding.start⟩

end Recogniser

end Stocktake
