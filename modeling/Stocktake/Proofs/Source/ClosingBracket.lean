import Mathlib.Data.List.TakeWhile
import Stocktake.Proofs.Text.Separator
import Stocktake.Source.Injection

/-! The last injection list of a text is the one that its last suitable closing bracket closes. -/

namespace Stocktake

/-- White space up to the end of a line takes part of a text away. -/
theorem closesLine_iff (text : List Char) :
    closesLine text = true ↔
      ∃ slack rest, text = slack ++ rest ∧ (∀ c ∈ slack, isBlank c = true) ∧
        rest.head?.all (· == '\n') = true := by
  rw [closesLine, Bool.or_eq_true]
  constructor
  · rintro (blank | lineFeed)
    · -- White space reaches the end of the text.
      have all := List.dropWhile_eq_nil_iff.mp (List.isEmpty_iff.mp blank)
      exact ⟨text, [], by simp, all, rfl⟩
    · -- The line ends within the white space.
      obtain ⟨slack, behind, parts⟩ := List.append_of_mem (List.contains_iff_mem.mp lineFeed)
      refine ⟨slack, '\n' :: behind ++ text.dropWhile isBlank, ?_, ?_, rfl⟩
      · rw [← List.append_assoc, ← parts, List.takeWhile_append_dropWhile]
      · intro c member
        exact List.mem_takeWhile_imp (parts ▸ List.mem_append_left _ member)
  · rintro ⟨slack, rest, rfl, all, ends⟩
    cases rest with
    | nil =>
      left
      rw [List.append_nil, List.isEmpty_iff, List.dropWhile_eq_nil_iff]
      exact all
    | cons c rest =>
      right
      obtain rfl : c = '\n' := by simpa using ends
      rw [List.takeWhile_append_of_pos all, List.takeWhile_cons_of_pos (by decide)]
      simp

/-- The list that a bracket closes between a segment without closing bracket and the text behind:
it is opened by the first opening bracket of the segment, is not empty, and closes its line. -/
def closedList? (segment rest : List Char) : Option (List Char) :=
  match segment.dropWhile (· != '[') with
  | _ :: c :: body => if closesLine rest then some (c :: body) else none
  | _ => none

/-- Before a list is open, nothing but an opening bracket counts. -/
theorem lastListFrom_append_of_not_mem {lead : List Char} (plain : '[' ∉ lead)
    (found : Option (List Char)) (text : List Char) :
    lastListFrom found none (lead ++ text) = lastListFrom found none text := by
  -- Each such character is passed over.
  induction lead with
  | nil => rfl
  | cons c lead ih =>
    simp only [List.mem_cons, not_or] at plain
    rw [List.cons_append, lastListFrom, beq_eq_false_iff_ne.mpr (Ne.symm plain.1)]
    exact ih plain.2

/-- While a list is open, all but a closing bracket goes into it. -/
theorem lastListFrom_append_of_open {body : List Char} (unclosed : ']' ∉ body)
    (found : Option (List Char)) (held text : List Char) :
    lastListFrom found (some held) (body ++ text) =
      lastListFrom found (some (body.reverse ++ held)) text := by
  -- The characters of an open list are held in reverse until it closes.
  induction body generalizing held with
  | nil => rfl
  | cons c body ih =>
    simp only [List.mem_cons, not_or] at unclosed
    rw [List.cons_append, lastListFrom, if_pos (by simpa using Ne.symm unclosed.1),
      ih unclosed.2]
    simp

/-- A segment is what stands before its first opening bracket, and what begins with that. -/
theorem segment_cases (segment : List Char) :
    ('[' ∉ segment ∧ segment.dropWhile (· != '[') = []) ∨
      ∃ lead body, segment = lead ++ '[' :: body ∧ '[' ∉ lead ∧
        segment.dropWhile (· != '[') = '[' :: body := by
  have parts := List.takeWhile_append_dropWhile (p := (· != '[')) (l := segment)
  have plain : '[' ∉ segment.takeWhile (· != '[') := by
    intro member
    simpa using List.mem_takeWhile_imp member
  cases opened : segment.dropWhile (· != '[') with
  | nil =>
    rw [opened, List.append_nil] at parts
    rw [parts] at plain
    exact .inl ⟨plain, rfl⟩
  | cons c body =>
    -- The first character that is not passed over is the bracket.
    have bracket : c = '[' := by
      simpa using eq_false_of_dropWhile_eq_cons opened
    subst bracket
    rw [opened] at parts
    exact .inr ⟨_, body, parts.symm, plain, rfl⟩

/-- A text in which nothing is closed has no list. -/
theorem lastListFrom_of_not_mem {text : List Char} (unclosed : ']' ∉ text)
    (found : Option (List Char)) : lastListFrom found none text = found := by
  obtain ⟨plain, -⟩ | ⟨lead, body, rfl, plain, -⟩ := segment_cases text
  · simpa [lastListFrom] using lastListFrom_append_of_not_mem plain found []
  · -- The list that is opened stays open to the end.
    simp only [List.mem_append, List.mem_cons, not_or] at unclosed
    rw [lastListFrom_append_of_not_mem plain, lastListFrom, if_pos (by rfl)]
    simpa [lastListFrom] using lastListFrom_append_of_open unclosed.2.2 found [] []

/-- A closing bracket replaces the list that was found before when it closes one itself. -/
theorem lastListFrom_append_cons {segment : List Char} (unclosed : ']' ∉ segment)
    (found : Option (List Char)) (rest : List Char) :
    lastListFrom found none (segment ++ ']' :: rest) =
      lastListFrom ((closedList? segment rest).or found) none rest := by
  -- A segment has no closing bracket, so its first opening one opens the list that is closed.
  obtain ⟨plain, nothing⟩ | ⟨lead, body, shape, plain, opened⟩ := segment_cases segment
  · rw [lastListFrom_append_of_not_mem plain, closedList?, nothing]
    rfl
  · rw [closedList?, opened, shape, List.append_assoc, lastListFrom_append_of_not_mem plain,
      List.cons_append, lastListFrom, if_pos (by rfl)]
    have inside : ']' ∉ body := by
      rw [shape] at unclosed
      simp only [List.mem_append, List.mem_cons, not_or] at unclosed
      exact unclosed.2.2
    rw [lastListFrom_append_of_open inside, List.append_nil, lastListFrom,
      if_neg (by simp), List.reverse_reverse]
    cases body with
    | nil => rfl
    | cons c body =>
      by_cases closes : closesLine rest = true
      · simp [closes]
      · simp [closes]

/-- The bracket at `q` closes the list that the bracket at `p` opens. -/
structure ClosesList (text : List Char) (p q : Nat) : Prop where
  closing : text[q]? = some ']'
  /-- White space behind the closing bracket reaches the end of the text or of the line. -/
  endsLine : ∃ slack rest, text.drop (q + 1) = slack ++ rest ∧ (∀ c ∈ slack, isBlank c = true) ∧
    rest.head?.all (· == '\n') = true
  opening : text[p]? = some '['
  /-- Between the closing bracket before this one, or the start of the text, and this one, the
  opening bracket is the first. -/
  first : ∃ start, start ≤ p ∧ (start = 0 ∨ text[start - 1]? = some ']') ∧
    (∀ i, start ≤ i → i < q → text[i]? ≠ some ']') ∧ ∀ i, start ≤ i → i < p → text[i]? ≠ some '['
  filled : p + 1 < q

/-- A segment and the text behind it close a list when the rest of the segment behind its first
opening bracket is not empty, and the bracket between them closes its line. -/
theorem closedList?_eq_some {segment rest list : List Char} :
    closedList? segment rest = some list ↔
      ∃ lead, segment = lead ++ '[' :: list ∧ '[' ∉ lead ∧ list ≠ [] ∧
        closesLine rest = true := by
  constructor
  · intro closed
    obtain ⟨-, nothing⟩ | ⟨lead, body, shape, plain, opened⟩ := segment_cases segment
    · simp [closedList?, nothing] at closed
    · rw [closedList?, opened] at closed
      cases body with
      | nil => cases closed
      | cons c body =>
        simp only [Option.ite_none_right_eq_some, Option.some.injEq] at closed
        obtain ⟨ends, rfl⟩ := closed
        exact ⟨lead, shape, plain, List.cons_ne_nil c body, ends⟩
  · rintro ⟨lead, rfl, plain, filled, ends⟩
    -- The search for the opening bracket passes over what leads to it.
    have opened : (lead ++ '[' :: list).dropWhile (· != '[') = '[' :: list := by
      rw [List.dropWhile_append_of_pos, List.dropWhile_cons_of_neg (by simp)]
      intro c member
      simpa using ne_of_mem_of_not_mem member plain
    rw [closedList?, opened]
    cases list with
    | nil => exact absurd rfl filled
    | cons c body => exact if_pos ends

/-- Nothing is closed by a bracket behind no text, or by one that does not close its line. -/
theorem closedList?_eq_none {segment rest : List Char}
    (unclosed : ¬ (segment ≠ [] ∧ closesLine rest = true)) : closedList? segment rest = none := by
  -- A list that is closed gives both a segment and the end of its line.
  apply Option.eq_none_iff_forall_ne_some.mpr
  intro list closed
  obtain ⟨lead, rfl, -, -, closes⟩ := closedList?_eq_some.mp closed
  exact unclosed ⟨by simp, closes⟩

/-- Of a segment that begins with an opening bracket all the rest is the list. -/
theorem closedList?_bracket (segment rest : List Char) :
    closedList? ('[' :: segment) rest =
      if segment ≠ [] ∧ closesLine rest = true then some segment else none := by
  -- Nothing stands before the opening bracket, so nothing is dropped.
  rw [closedList?, List.dropWhile_cons_of_neg (by simp)]
  cases segment with
  | nil => simp
  | cons c segment => simp

/-- What stands before the first opening bracket does not belong to a list. -/
theorem closedList?_cons_of_ne {c : Char} (plain : c ≠ '[') (segment rest : List Char) :
    closedList? (c :: segment) rest = closedList? segment rest := by
  -- Characters are dropped up to the first opening bracket.
  rw [closedList?, closedList?, List.dropWhile_cons_of_pos (by simpa using plain)]

section Segments

variable {segment rest : List Char} {p q : Nat}

/-- The characters behind a closing bracket. -/
theorem getElem?_behind (segment rest : List Char) (i : Nat) :
    (segment ++ ']' :: rest)[segment.length + 1 + i]? = rest[i]? := by
  -- The segment and its bracket are passed over.
  rw [List.getElem?_append_right (by omega), Nat.add_assoc, Nat.add_sub_cancel_left,
    Nat.add_comm 1 i, List.getElem?_cons_succ]

/-- The text behind a closing bracket. -/
theorem drop_behind (segment rest : List Char) (i : Nat) :
    (segment ++ ']' :: rest).drop (segment.length + 1 + i) = rest.drop i := by
  -- The segment and its bracket are dropped first.
  rw [Nat.add_assoc, List.drop_length_add_append, Nat.add_comm 1 i, List.drop_succ_cons]

/-- The characters up to a closing bracket. -/
theorem getElem?_before (rest : List Char) {i : Nat} (inside : i < segment.length) :
    (segment ++ ']' :: rest)[i]? = segment[i]? :=
  -- The position is within the segment, which stands in front.
  List.getElem?_append_left inside

/-- A closing bracket at the end of a segment. -/
theorem getElem?_bracket (segment rest : List Char) :
    (segment ++ ']' :: rest)[segment.length]? = some ']' := by
  -- The bracket stands at the length of the segment.
  simp

/-- Behind a closing bracket lists are closed as if the text began there. -/
theorem closesList_behind :
    ClosesList (segment ++ ']' :: rest) (segment.length + 1 + p) (segment.length + 1 + q) ↔
      ClosesList rest p q := by
  constructor
  · rintro ⟨closing, endsLine, opening, ⟨start, below, behind, whole, plain⟩, filled⟩
    rw [getElem?_behind] at closing opening
    rw [Nat.add_assoc _ q 1, drop_behind] at endsLine
    -- What the list is the first in begins behind the bracket, too.
    have later : segment.length < start := by
      apply Nat.lt_of_not_le
      intro early
      exact whole segment.length early (by omega) (getElem?_bracket segment rest)
    obtain ⟨offset, rfl⟩ := Nat.exists_eq_add_of_le (show segment.length + 1 ≤ start from later)
    refine ⟨closing, endsLine, opening, ⟨offset, by omega, ?_, ?_, ?_⟩, by omega⟩
    · cases offset with
      | zero => exact .inl rfl
      | succ offset =>
        right
        rcases behind with none_before | bracket
        · omega
        · rwa [Nat.add_sub_cancel, ← getElem?_behind segment rest offset]
    · intro i from_ upTo
      rw [← getElem?_behind segment rest i]
      exact whole _ (by omega) (by omega)
    · intro i from_ upTo
      rw [← getElem?_behind segment rest i]
      exact plain _ (by omega) (by omega)
  · rintro ⟨closing, endsLine, opening, ⟨start, below, behind, whole, plain⟩, filled⟩
    rw [← getElem?_behind segment rest] at closing opening
    rw [← drop_behind segment rest, ← Nat.add_assoc] at endsLine
    refine ⟨closing, endsLine, opening,
      ⟨segment.length + 1 + start, by omega, .inr ?_, ?_, ?_⟩, by omega⟩
    · cases start with
      | zero => exact getElem?_bracket segment rest
      | succ start =>
        rcases behind with none_before | bracket
        · omega
        · rw [Nat.add_sub_cancel] at bracket
          have here := getElem?_behind segment rest start
          rwa [bracket] at here
    · intro i from_ upTo
      obtain ⟨j, rfl⟩ := Nat.exists_eq_add_of_le (show segment.length + 1 ≤ i by omega)
      rw [getElem?_behind]
      exact whole j (by omega) (by omega)
    · intro i from_ upTo
      obtain ⟨j, rfl⟩ := Nat.exists_eq_add_of_le (show segment.length + 1 ≤ i by omega)
      rw [getElem?_behind]
      exact plain j (by omega) (by omega)

/-- The first closing bracket of a text closes a list that is opened in the segment before it. -/
theorem closesList_bracket (unclosed : ']' ∉ segment) :
    ClosesList (segment ++ ']' :: rest) p segment.length ↔
      ∃ lead list, segment = lead ++ '[' :: list ∧ p = lead.length ∧ '[' ∉ lead ∧ list ≠ [] ∧
        closesLine rest = true := by
  constructor
  · rintro ⟨-, endsLine, opening, ⟨start, below, behind, -, plain⟩, filled⟩
    rw [getElem?_before rest (by omega)] at opening
    have ends : (segment ++ ']' :: rest).drop (segment.length + 1) = rest :=
      drop_behind segment rest 0
    rw [ends] at endsLine
    -- The segment has no closing bracket, so that it is looked at from its start.
    have atStart : start = 0 := by
      rcases behind with none_before | bracket
      · exact none_before
      · rw [getElem?_before rest (by omega)] at bracket
        exact absurd (List.mem_of_getElem? bracket) unclosed
    subst atStart
    obtain ⟨inside, here⟩ := List.getElem?_eq_some_iff.mp opening
    have parts : segment = segment.take p ++ '[' :: segment.drop (p + 1) := by
      rw [← here, List.getElem_cons_drop, List.take_append_drop]
    refine ⟨segment.take p, segment.drop (p + 1), parts, ?_, ?_, ?_,
      (closesLine_iff rest).mpr endsLine⟩
    · rw [List.length_take]
      omega
    · intro member
      obtain ⟨i, there⟩ := List.getElem?_of_mem member
      obtain ⟨upTo, -⟩ := List.getElem?_eq_some_iff.mp there
      rw [List.length_take] at upTo
      rw [List.getElem?_take_of_lt (by omega)] at there
      apply plain i (by omega) (by omega)
      rw [getElem?_before rest (by omega), there]
    · intro nothing
      have short := List.drop_eq_nil_iff.mp nothing
      omega
  · rintro ⟨lead, list, rfl, rfl, plain, filled, endsLine⟩
    have size : (lead ++ '[' :: list).length = lead.length + 1 + list.length := by
      simp only [List.length_append, List.length_cons]
      omega
    have long := List.length_pos_iff.mpr filled
    refine ⟨getElem?_bracket _ _, ?_, ?_, ⟨0, by omega, .inl rfl, ?_, ?_⟩, by omega⟩
    · have ends := drop_behind (lead ++ '[' :: list) rest 0
      rw [Nat.add_zero] at ends
      rw [ends]
      exact (closesLine_iff rest).mp endsLine
    · rw [getElem?_before rest (by omega)]
      simp
    · intro i _ upTo bracket
      rw [getElem?_before rest upTo] at bracket
      exact unclosed (List.mem_of_getElem? bracket)
    · intro i _ upTo bracket
      rw [getElem?_before rest (by omega), List.getElem?_append_left upTo] at bracket
      exact plain (List.mem_of_getElem? bracket)

/-- What is closed before a closing bracket is closed by an earlier one. -/
theorem ClosesList.cases (unclosed : ']' ∉ segment)
    (closes : ClosesList (segment ++ ']' :: rest) p q) :
    q = segment.length ∨ ∃ p' q', p = segment.length + 1 + p' ∧ q = segment.length + 1 + q' ∧
      ClosesList rest p' q' := by
  obtain earlier | same | later := Nat.lt_trichotomy q segment.length
  · -- The segment itself has no closing bracket.
    have bracket := closes.closing
    rw [getElem?_before rest earlier] at bracket
    exact absurd (List.mem_of_getElem? bracket) unclosed
  · exact .inl same
  · -- The bracket behind the segment does not stand inside the list.
    have apart : segment.length < p := by
      apply Nat.lt_of_not_le
      intro early
      obtain ⟨start, below, -, whole, -⟩ := closes.first
      exact whole segment.length (by omega) later (getElem?_bracket segment rest)
    obtain ⟨p', rfl⟩ := Nat.exists_eq_add_of_le (show segment.length + 1 ≤ p from apart)
    obtain ⟨q', rfl⟩ := Nat.exists_eq_add_of_le (show segment.length + 1 ≤ q from later)
    exact .inr ⟨p', q', rfl, rfl, closesList_behind.mp closes⟩

end Segments

/-- A search ends with the list of the last bracket that closes one, or with the list that was
found before when there is no such bracket. -/
theorem lastListFrom_spec (text : List Char) : ∀ found,
    (∀ p q, ¬ ClosesList text p q) ∧ lastListFrom found none text = found ∨
      ∃ p q, ClosesList text p q ∧ (∀ p' q', ClosesList text p' q' → q' ≤ q) ∧
        lastListFrom found none text = some ((text.take q).drop (p + 1)) := by
  induction text using separated_induction ']' with
  | whole text free =>
    intro found
    refine .inl ⟨fun p q closes => ?_, lastListFrom_of_not_mem free found⟩
    exact free (List.mem_of_getElem? closes.closing)
  | parts segment rest free ih =>
    intro found
    rw [lastListFrom_append_cons free]
    obtain ⟨nowhere, same⟩ | ⟨p, q, closes, last, same⟩ :=
      ih ((closedList? segment rest).or found)
    · rw [same]
      cases closed : closedList? segment rest with
      | none =>
        -- Neither this bracket nor a later one closes a list.
        refine .inl ⟨fun p q closes => ?_, rfl⟩
        rcases closes.cases free with rfl | ⟨p', q', -, -, later⟩
        · obtain ⟨lead, list, shape, -, plain, filled, ends⟩ := (closesList_bracket free).mp closes
          rw [closedList?_eq_some.mpr ⟨lead, shape, plain, filled, ends⟩] at closed
          cases closed
        · exact nowhere p' q' later
      | some list =>
        -- This bracket is the last that closes a list.
        obtain ⟨lead, shape, plain, filled, ends⟩ := closedList?_eq_some.mp closed
        refine .inr ⟨lead.length, segment.length,
          (closesList_bracket free).mpr ⟨lead, list, shape, rfl, plain, filled, ends⟩, ?_, ?_⟩
        · intro p' q' closes
          rcases closes.cases free with same | ⟨p'', q'', -, -, later⟩
          · exact Nat.le_of_eq same
          · exact absurd later (nowhere p'' q'')
        · rw [List.take_left, shape, List.drop_length_add_append]
          rfl
    · -- A later bracket closes the last list.
      refine .inr ⟨segment.length + 1 + p, segment.length + 1 + q, closesList_behind.mpr closes,
        ?_, ?_⟩
      · intro p' q' closes'
        rcases closes'.cases free with rfl | ⟨p'', q'', -, rfl, later⟩
        · omega
        · have bound := last p'' q'' later
          omega
      · rw [same, List.drop_take, List.drop_take, Nat.add_assoc _ p 1, drop_behind]
        congr 2
        omega

end Stocktake
