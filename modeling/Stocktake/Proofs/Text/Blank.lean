import Mathlib.Data.List.DropRight
import Stocktake.Text.Blank

/-! Trimming removes what it drops from both ends of a text, however much of it there is. -/

namespace Stocktake

variable {drops : Char → Bool} {slack text : List Char}

/-- What is dropped at the front may as well be missing there. -/
theorem stripEnds_append_left (dropped : ∀ c ∈ slack, drops c = true) (text : List Char) :
    stripEnds drops (slack ++ text) = stripEnds drops text := by
  -- Dropping at the front comes first.
  rw [stripEnds, stripEnds, List.dropWhile_append_of_pos dropped]

/-- What is dropped at the back may as well be missing there. -/
theorem stripEnds_append_right (dropped : ∀ c ∈ slack, drops c = true) (text : List Char) :
    stripEnds drops (text ++ slack) = stripEnds drops text := by
  rw [stripEnds, stripEnds, List.dropWhile_append]
  split
  · -- A text that is dropped as a whole leaves as little as what is behind it does.
    rename_i nothing
    rw [List.dropWhile_eq_nil_iff.mpr dropped, List.isEmpty_iff.mp nothing]
  · rw [List.reverse_append, List.dropWhile_append_of_pos]
    intro c member
    exact dropped c (List.mem_reverse.mp member)

/-- A text is left as it is when neither of its ends is dropped. -/
theorem stripEnds_eq_self (front : ∀ c ∈ text.head?, drops c = false)
    (back : ∀ c ∈ text.getLast?, drops c = false) : stripEnds drops text = text := by
  have kept : text.dropWhile drops = text := by
    cases text with
    | nil => rfl
    | cons c text => exact List.dropWhile_cons_of_neg (by simp [front c rfl])
  rw [stripEnds, kept]
  -- The same holds for the text from its other end.
  have kept' : text.reverse.dropWhile drops = text.reverse := by
    rw [← List.head?_reverse] at back
    cases reversed : text.reverse with
    | nil => rfl
    | cons c rest => exact List.dropWhile_cons_of_neg (by simp [back c (by rw [reversed]; rfl)])
  rw [kept', List.reverse_reverse]

/-- A character that is not dropped keeps all that stands before it, up to the front of the text. -/
theorem stripEnds_append_cons {front : List Char} {c : Char}
    (first : ∀ d ∈ front.head?, drops d = false) (kept : drops c = false) (behind : List Char) :
    ∃ left, stripEnds drops (front ++ c :: behind) = front ++ c :: left := by
  have whole : (front ++ c :: behind).dropWhile drops = front ++ c :: behind := by
    cases front with
    | nil => exact List.dropWhile_cons_of_neg (by simp [kept])
    | cons d front => exact List.dropWhile_cons_of_neg (by simp [first d rfl])
  refine ⟨(behind.reverse.dropWhile drops).reverse, ?_⟩
  rw [stripEnds, whole, List.reverse_append, List.reverse_cons, List.append_assoc,
    List.dropWhile_append]
  split
  · -- The character is then the first one from the back that is not dropped.
    rename_i nothing
    rw [List.isEmpty_iff.mp nothing, List.singleton_append,
      List.dropWhile_cons_of_neg (by simp [kept])]
    simp
  · simp

/-- What is left of a text without its ends stands in it as a whole. -/
theorem stripEnds_isInfix (drops : Char → Bool) (text : List Char) :
    stripEnds drops text <:+: text :=
  -- Dropping at the front leaves an end of the text, and dropping at the back a beginning of that.
  (List.rdropWhile_prefix drops (text.dropWhile drops)).isInfix.trans
    (List.dropWhile_suffix drops).isInfix

/-- Behind the characters of a class a text does not go on with one of them. -/
theorem eq_false_of_mem_head?_dropWhile {c : Char} (first : c ∈ (text.dropWhile drops).head?) :
    drops c = false := by
  -- Otherwise that character would have been dropped as well.
  have ends := List.head?_dropWhile_not drops text
  rwa [Option.mem_def.mp first] at ends

/-- What is dropped is not left at the front. -/
theorem eq_false_of_mem_head?_stripEnds {c : Char} (first : c ∈ (stripEnds drops text).head?) :
    drops c = false := by
  -- The text without its back begins as it did before that was dropped.
  obtain ⟨back, parts⟩ := List.rdropWhile_prefix drops (text.dropWhile drops)
  have same : c ∈ (text.dropWhile drops).head? := by
    rw [← parts, List.head?_append]
    exact Option.or_eq_some_iff.mpr (.inl first)
  exact eq_false_of_mem_head?_dropWhile same

/-- What is dropped is not left at the back. -/
theorem eq_false_of_mem_getLast?_stripEnds {c : Char}
    (last : c ∈ (stripEnds drops text).getLast?) : drops c = false := by
  -- The back is dropped from the reversed text, whose front it is.
  rw [stripEnds, List.getLast?_reverse] at last
  exact eq_false_of_mem_head?_dropWhile last

/-- A text that loses nothing at its ends has nothing there that is dropped. -/
theorem stripEnds_eq_self_iff :
    stripEnds drops text = text ↔
      (∀ c ∈ text.head?, drops c = false) ∧ ∀ c ∈ text.getLast?, drops c = false := by
  constructor
  · -- The text is what is left, and nothing that is dropped is left at an end.
    intro whole
    rw [← whole]
    exact ⟨fun _ => eq_false_of_mem_head?_stripEnds, fun _ => eq_false_of_mem_getLast?_stripEnds⟩
  · rintro ⟨front, back⟩
    exact stripEnds_eq_self front back

/-- A character that is no white space is not among white space. -/
theorem not_mem_of_blank {c : Char} (solid : isBlank c = false)
    (blank : ∀ c ∈ slack, isBlank c = true) : c ∉ slack := by
  -- As white space it would be what it is not.
  intro member
  rw [blank c member] at solid
  cases solid

namespace Padding

variable (padding : Padding) {text : List Char}

/-- White space around a text goes when the text is trimmed. -/
theorem trim_around (text : List Char) : trim (padding.around text) = trim text := by
  -- Trimming drops the white space at both ends.
  rw [trim, trim, around, stripEnds_append_left padding.isBlank_before,
    stripEnds_append_right padding.isBlank_behind]

/-- Among white space around a text there is nothing but white space. -/
theorem not_mem_around {c : Char} (solid : isBlank c = false) (free : c ∉ text) :
    c ∉ padding.around text := by
  -- The character is none of the white space on either side.
  have outside := not_mem_of_blank solid padding.isBlank_before
  have outside' := not_mem_of_blank solid padding.isBlank_behind
  simp [around, outside, free, outside']

/-- A text with white space around it begins with white space or as it does itself. -/
theorem head?_around {c : Char} (first : c ∈ (padding.around text).head?) :
    isBlank c = true ∨ c ∈ text.head? := by
  -- The first character is that of the first part that is not empty.
  rw [around, List.head?_append, List.head?_append, Option.mem_def, Option.or_eq_some_iff,
    Option.or_eq_some_iff] at first
  rcases first with before | ⟨-, own | ⟨-, behind⟩⟩
  · exact .inl (padding.isBlank_before c (List.mem_of_head? before))
  · exact .inr own
  · exact .inl (padding.isBlank_behind c (List.mem_of_head? behind))

/-- A text with white space around it ends with white space or as it does itself. -/
theorem getLast?_around {c : Char} (last : c ∈ (padding.around text).getLast?) :
    isBlank c = true ∨ c ∈ text.getLast? := by
  -- The last character is that of the last part that is not empty.
  rw [around, List.getLast?_append, List.getLast?_append, Option.mem_def, Option.or_eq_some_iff,
    Option.or_eq_some_iff] at last
  rcases last with (behind | ⟨-, own⟩) | ⟨-, before⟩
  · exact .inl (padding.isBlank_behind c (List.mem_of_getLast? behind))
  · exact .inr own
  · exact .inl (padding.isBlank_before c (List.mem_of_getLast? before))

end Padding

end Stocktake
