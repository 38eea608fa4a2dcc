import Stocktake.Proofs.Text.Search
import Stocktake.Proofs.Text.Separator

/-! Words stand in a text one behind the other when they have places in it that come in the same order
and do not overlap. The parts of a text do, and so does what is left of them. -/

namespace Stocktake

/-- Words stand in a text in their order, each behind the end of the one before it. -/
def StandInOrder : List (List Char) → List Char → Prop
  | [], _ => True
  | word :: words, text =>
    -- Between two words there may be anything, and nothing at all.
    ∃ before behind, text = before ++ (word ++ behind) ∧ StandInOrder words behind

namespace StandInOrder

variable {words : List (List Char)} {text : List Char}

/-- Words that stand in a text still do when more comes before it. -/
theorem append_left (before : List Char) (stand : StandInOrder words text) :
    StandInOrder words (before ++ text) := by
  cases words with
  | nil => trivial
  | cons word words =>
    -- Only what stands before the first word gets longer.
    obtain ⟨lead, behind, rfl, later⟩ := stand
    exact ⟨before ++ lead, behind, by simp, later⟩

/-- Words that stand in a text still do when more comes behind it. -/
theorem append_right (stand : StandInOrder words text) (behind : List Char) :
    StandInOrder words (text ++ behind) := by
  -- It comes behind the last word, so that the claim is about what is behind each word in turn.
  induction words generalizing text with
  | nil => trivial
  | cons word words ih =>
    obtain ⟨lead, rest, rfl, later⟩ := stand
    exact ⟨lead, rest ++ behind, by simp, ih later⟩

/-- Words that stand in a part of a text stand in the text. -/
theorem of_isInfix {part : List Char} (stand : StandInOrder words part) (inside : part <:+: text) :
    StandInOrder words text := by
  -- The text has the part with something before it and something behind it.
  obtain ⟨before, behind, rfl⟩ := inside
  exact (stand.append_left before).append_right behind

/-- Some of the words of a text stand in it as all of them do. -/
theorem of_sublist {fewer : List (List Char)} (among : fewer.Sublist words)
    (stand : StandInOrder words text) : StandInOrder fewer text := by
  induction among generalizing text with
  | slnil => trivial
  | cons word among ih =>
    -- A word that is left out only adds to what stands before the next one.
    obtain ⟨lead, behind, rfl, later⟩ := stand
    rw [← List.append_assoc]
    exact (ih later).append_left (lead ++ word)
  | cons_cons word among ih =>
    obtain ⟨lead, behind, shape, later⟩ := stand
    exact ⟨lead, behind, shape, ih later⟩

/-- A word that stands in a text is a part of it. -/
theorem isInfix (stand : StandInOrder words text) {word : List Char} (member : word ∈ words) :
    word <:+: text := by
  induction words generalizing text with
  | nil => exact absurd member List.not_mem_nil
  | cons first words ih =>
    obtain ⟨lead, behind, rfl, later⟩ := stand
    rcases List.mem_cons.mp member with rfl | further
    · exact ⟨lead, behind, by simp⟩
    · -- The word stands in what is behind the first one.
      have within : behind <:+: lead ++ (first ++ behind) := ⟨lead ++ first, [], by simp⟩
      exact (ih later further).trans within

end StandInOrder

/-- What is left of the parts of a text stands in it in their order. -/
theorem standInOrder_splitOn {look : List Char → List Char} (within : ∀ part, look part <:+: part)
    (separator : Char) (text : List Char) :
    StandInOrder ((text.splitOn separator).map look) text := by
  induction text using separated_induction separator with
  | whole text free =>
    rw [List.splitOn_eq_singleton free]
    obtain ⟨before, behind, parts⟩ := within text
    refine ⟨before, behind, ?_, trivial⟩
    rw [← List.append_assoc, parts]
  | parts part rest free ih =>
    -- Behind what is left of the first part come the separator and the other parts.
    rw [List.splitOn_append_cons_self_of_not_mem free, List.map_cons]
    obtain ⟨before, behind, parts⟩ := within part
    refine ⟨before, behind ++ separator :: rest, ?_, ?_⟩
    · calc part ++ separator :: rest
        _ = (before ++ look part ++ behind) ++ separator :: rest := by rw [parts]
        _ = before ++ (look part ++ (behind ++ separator :: rest)) := by
          simp only [List.append_assoc]
    · have later : StandInOrder ((rest.splitOn separator).map look) ([separator] ++ rest) :=
        ih.append_left [separator]
      exact later.append_left behind

namespace Finding

/-- A word is found literally where a text has it between its start and its stop. -/
def IsLiteral (text : List Char) (finding : Finding (List Char)) : Prop :=
  ∃ before behind, text = before ++ (finding.item ++ behind) ∧
    finding.start = before.length ∧ finding.stop = finding.start + finding.item.length

/-- A finding in a text that begins at a further position of a longer text. -/
def shift (offset : Nat) (finding : Finding (List Char)) : Finding (List Char) :=
  ⟨finding.item, offset + finding.start, offset + finding.stop⟩

/-- A word that is found literally behind some text is found in the whole. -/
theorem IsLiteral.shift {text : List Char} {finding : Finding (List Char)}
    (literal : finding.IsLiteral text) (before : List Char) :
    (finding.shift before.length).IsLiteral (before ++ text) := by
  obtain ⟨lead, behind, rfl, start, stop⟩ := literal
  -- Both positions move by the length of that text.
  refine ⟨before ++ lead, behind, by simp [Finding.shift], ?_, ?_⟩
  · simp [Finding.shift, start]
  · simp [Finding.shift, stop, Nat.add_assoc]

end Finding

/-- Words that stand in a text in order have places there that come in this order and do not
overlap. -/
theorem StandInOrder.exists_findings {words : List (List Char)} {text : List Char}
    (stand : StandInOrder words text) :
    ∃ findings : List (Finding (List Char)), findings.map Finding.item = words ∧
      (∀ finding ∈ findings, finding.IsLiteral text) ∧
        findings.Pairwise fun one next => one.stop ≤ next.start := by
  induction words generalizing text with
  | nil => exact ⟨[], rfl, by simp, List.Pairwise.nil⟩
  | cons word words ih =>
    obtain ⟨before, behind, rfl, later⟩ := stand
    obtain ⟨findings, items, literal, apart⟩ := ih later
    -- The later words are found behind the first one, by as much as its end lies in.
    refine ⟨⟨word, before.length, before.length + word.length⟩ ::
      findings.map (Finding.shift (before ++ word).length), ?_, ?_, ?_⟩
    · rw [List.map_cons, List.map_map, ← items]
      rfl
    · -- The first place is the one of the word, and the others are shifted along with their words.
      intro finding member
      rcases List.mem_cons.mp member with rfl | further
      · exact ⟨before, behind, rfl, rfl, rfl⟩
      · obtain ⟨inner, among, rfl⟩ := List.mem_map.mp further
        rw [← List.append_assoc]
        exact (literal inner among).shift (before ++ word)
    · apply List.pairwise_cons.mpr
      constructor
      · -- A shifted place begins where the first word ends, or later.
        intro finding member
        obtain ⟨inner, -, rfl⟩ := List.mem_map.mp member
        simp only [Finding.shift, List.length_append]
        omega
      · apply apart.map
        intro one next order
        simp only [Finding.shift]
        omega

end Stocktake
