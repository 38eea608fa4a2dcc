import Mathlib.Data.List.DropRight
import Mathlib.Tactic.Choose
import Stocktake.Proofs.Text.Search
import Stocktake.Proofs.Text.Separator
import Stocktake.Source.WrittenCall

/-! The declarations of a text are calls that are written in it, and no call is passed over unless it
begins inside another one. -/

namespace Stocktake

/-- A quote is no white space. -/
theorem isBlank_of_isNameQuote {c : Char} (quote : isNameQuote c = true) : isBlank c = false := by
  -- There are only two quotes.
  rw [isNameQuote, Bool.or_eq_true, beq_iff_eq, beq_iff_eq] at quote
  rcases quote with same | same
  · rw [same]
    decide
  · rw [same]
    decide

/-- A quoted name is a text without quotes between two quotes. -/
theorem quotedName?_eq_some_iff {text name rest : List Char} :
    quotedName? text = some (name, rest) ↔ ∃ opening closing : NameQuote,
      name ≠ [] ∧ name.all (!isNameQuote ·) = true ∧
        text = opening.val :: (name ++ closing.val :: rest) := by
  constructor
  · intro read
    cases text with
    | nil => cases read
    | cons c text =>
      rw [quotedName?] at read
      split at read
      · rename_i opens
        split at read
        · rename_i first inner closing behind held left
          obtain ⟨rfl, rfl⟩ := Prod.mk.inj (Option.some.inj read)
          -- The name ends before the first quote behind it.
          have closes : isNameQuote closing = true := by
            simpa using eq_false_of_dropWhile_eq_cons left
          refine ⟨⟨c, opens⟩, ⟨closing, closes⟩, List.cons_ne_nil first inner, ?_, ?_⟩
          · rw [← held]
            exact List.all_takeWhile
          · rw [← held, ← left, List.takeWhile_append_dropWhile]
        · cases read
      · cases read
  · intro written
    obtain ⟨opening, closing, filled, unquoted, rfl⟩ := written
    have plain := List.all_eq_true.mp unquoted
    have stops : (!isNameQuote closing.val) = false := by simp [closing.property]
    -- The search for the closing quote passes over all of the name.
    have held : (name ++ closing.val :: rest).takeWhile (!isNameQuote ·) = name := by
      rw [List.takeWhile_append_of_pos plain, List.takeWhile_cons_of_neg (by simp [stops]),
        List.append_nil]
    have left : (name ++ closing.val :: rest).dropWhile (!isNameQuote ·) =
        closing.val :: rest := by
      rw [List.dropWhile_append_of_pos plain, List.dropWhile_cons_of_neg (by simp [stops])]
    rw [quotedName?, if_pos opening.property, held, left]
    cases name with
    | nil => exact absurd rfl filled
    | cons first inner => rfl

/-- A quoted first argument is a quoted name behind a parenthesis. -/
theorem firstArgument?_eq_some_iff {text name rest : List Char} :
    firstArgument? text = some (name, rest) ↔ ∃ (slack : Padding) (inner : List Char),
      text = slack.around ['('] ++ inner ∧ quotedName? inner = some (name, rest) := by
  constructor
  · intro read
    rw [firstArgument?] at read
    split at read
    · rename_i behind opened
      -- White space is passed over before the parenthesis, and behind it.
      refine ⟨⟨text.takeWhile isBlank, behind.takeWhile isBlank, List.all_takeWhile,
        List.all_takeWhile⟩, behind.dropWhile isBlank, ?_, read⟩
      have before := List.takeWhile_append_dropWhile (p := isBlank) (l := text)
      rw [opened] at before
      simp only [Padding.around, List.append_assoc, List.cons_append,
        List.takeWhile_append_dropWhile]
      exact before.symm
    · cases read
  · intro written
    obtain ⟨slack, inner, rfl, read⟩ := written
    obtain ⟨opening, _, _, _, shape⟩ := quotedName?_eq_some_iff.mp read
    -- The quote of the name ends the white space.
    have stops : inner.dropWhile isBlank = inner := by
      rw [shape]
      exact List.dropWhile_cons_of_neg (by simp [isBlank_of_isNameQuote opening.property])
    have opened : (slack.around ['('] ++ inner).dropWhile isBlank =
        '(' :: (slack.behind ++ inner) := by
      rw [Padding.around, List.append_assoc, List.dropWhile_append_of_pos slack.isBlank_before]
      exact List.dropWhile_cons_of_neg (by decide)
    rw [firstArgument?, opened]
    simp only
    rw [List.dropWhile_append_of_pos slack.isBlank_behind, stops]
    exact read

/-- A declaration is read where a text begins with a call in one of the ways of writing it. -/
theorem declaredName?_eq_some_iff {category : Category} {text name rest : List Char} :
    declaredName? (callWord category) text = some (name, rest) ↔
      ∃ call : WrittenCall, call.category = category ∧ call.name = name ∧
        text = call.render ++ rest := by
  constructor
  · intro read
    rw [declaredName?] at read
    split at read
    · rename_i behind word
      rw [List.isPrefixOf?_eq_some_iff_append_eq] at word
      obtain ⟨slack, inner, rfl, quoted⟩ := firstArgument?_eq_some_iff.mp read
      obtain ⟨opening, closing, filled, unquoted, rfl⟩ := quotedName?_eq_some_iff.mp quoted
      refine ⟨⟨category, name, filled, unquoted, slack, opening, closing⟩, rfl, rfl, ?_⟩
      rw [← word]
      simp [WrittenCall.render, callLead]
    · cases read
  · intro written
    obtain ⟨call, rfl, rfl, rfl⟩ := written
    -- Behind the word there is the parenthesis, and behind that there is the name.
    have word : (callWord call.category).isPrefixOf? (call.render ++ rest) =
        some (call.slack.around ['('] ++
          call.opening.val :: (call.name ++ call.closing.val :: rest)) := by
      rw [List.isPrefixOf?_eq_some_iff_append_eq]
      simp [WrittenCall.render, callLead]
    rw [declaredName?, word]
    apply firstArgument?_eq_some_iff.mpr
    refine ⟨call.slack, _, rfl, ?_⟩
    exact quotedName?_eq_some_iff.mpr
      ⟨call.opening, call.closing, call.filled, call.unquoted, rfl⟩

/-- A name stands in a text where a call under its category does, with any text on both sides. -/
def IsDeclared (category : Category) (text : List Char) (finding : Finding (List Char)) : Prop :=
  ∃ (call : WrittenCall) (before behind : List Char),
    call.category = category ∧ text = before ++ (call.render ++ behind) ∧
      finding = ⟨call.name, before.length, before.length + call.render.length⟩

/-- The search for declarations finds a name where a call for it stands. -/
theorem standsIn_declarationRecogniser_iff {category : Category} {text : List Char}
    {finding : Finding (List Char)} :
    (declarationRecogniser (callWord category)).StandsIn text finding ↔
      IsDeclared category text finding := by
  constructor
  · intro standing
    have wide := standing.start_lt_stop
    obtain ⟨read, inside⟩ := standing
    obtain ⟨call, under, named, shape⟩ := declaredName?_eq_some_iff.mp read
    refine ⟨call, text.take finding.start, text.drop finding.stop, under, ?_, ?_⟩
    · rw [← shape, List.take_append_drop]
    · -- The call takes up what lies between the two positions.
      have size := congrArg List.length shape
      simp only [List.length_append, List.length_drop] at size
      have start : (text.take finding.start).length = finding.start := by
        rw [List.length_take]
        omega
      have stop : finding.start + call.render.length = finding.stop := by omega
      rw [start, stop, named]
  · intro declared
    obtain ⟨call, before, behind, under, rfl, rfl⟩ := declared
    constructor
    · apply declaredName?_eq_some_iff.mpr
      refine ⟨call, under, rfl, ?_⟩
      simp only [List.drop_left]
      rw [← List.append_assoc, ← List.length_append, List.drop_left]
    · simp only [List.length_append]
      omega

/-- Behind a declaration the text goes on. -/
theorem leavesEnd_declarationRecogniser (category : Category) :
    (declarationRecogniser (callWord category)).LeavesEnd := by
  -- Before what is left there is nothing but the call.
  intro text name rest read
  obtain ⟨call, _, _, shape⟩ := declaredName?_eq_some_iff.mp read
  exact ⟨call.render, shape.symm⟩

/-- The declarations of a text come from calls that stand in it, category by category. For each
category they are the only calls that can be selected from the whole text in such a way that none
overlaps another, that they come in the order of the text, and that a call which is left out begins
inside one of them. -/
theorem declarationsIn_select_calls (content : String) :
    ∃ selected : Category → List (Finding (List Char)),
      (declarationsIn content = Category.all.flatMap fun category =>
        (selected category).map fun finding => ⟨category, String.ofList finding.item⟩) ∧
      ∀ category, Finding.IsSelection (IsDeclared category content.toList) (selected category) ∧
        ∀ other, Finding.IsSelection (IsDeclared category content.toList) other →
          other = selected category := by
  have search := fun category =>
    (leavesEnd_declarationRecogniser category).exists_isSelection content.toList
  choose selected found selection using search
  refine ⟨selected, ?_, ?_⟩
  · rw [declarationsIn]
    apply List.flatMap_congr
    intro category _
    rw [declaredNames, found, List.map_map]
    rfl
  · intro category
    -- Where a call stands is where the search for its category finds it.
    have selection' := (selection category).congr fun _ => standsIn_declarationRecogniser_iff
    refine ⟨selection', ?_⟩
    intro other selection''
    apply selection''.unique _ selection'
    -- A call takes up room.
    intro finding standing
    exact (standsIn_declarationRecogniser_iff.mpr standing).start_lt_stop

/-- A call that begins in the name of another one is passed over, but not under another category. -/
example : declarationsIn "m.service('a.service(\"b').service( \n\"c'.factory ('d.service('e')" =
    [⟨.service, "a.service("⟩, ⟨.service, "c"⟩, ⟨.service, "e"⟩, ⟨.factory, "d.service("⟩] := by
  decide +kernel

end Stocktake
