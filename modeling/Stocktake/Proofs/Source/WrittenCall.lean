import Mathlib.Data.List.Count
import Stocktake.Proofs.Source.Declaration
import Stocktake.Proofs.Text.Blank
import Stocktake.Proofs.Text.Separator
import Stocktake.Source.Analysis

/-! Calls that are written into a text without other quotes are the declarations of this text: no
part of the text before, between or inside them is read as a call, and none of them is missed. -/

namespace Stocktake

/-- A keyword goes on up to white space or a parenthesis. -/
theorem takeWhile_keyword (category : Category) (slack : Padding) :
    (category.keyword.toList ++ slack.around ['(']).takeWhile
      (fun c => !isBlank c && c != '(') = category.keyword.toList := by
  -- No keyword has white space or a parenthesis in it, and what follows begins with one.
  have word : category.keyword.toList.all (fun c => !isBlank c && c != '(') = true := by
    cases category <;> decide
  have stops : (slack.around ['(']).takeWhile (fun c => !isBlank c && c != '(') = [] := by
    rw [Padding.around]
    cases lead : slack.before with
    | nil => exact List.takeWhile_cons_of_neg (by decide)
    | cons c others =>
      have blank := slack.isBlank_before c (by simp [lead])
      exact List.takeWhile_cons_of_neg (by simp [blank])
  rw [List.takeWhile_append_of_pos (List.all_eq_true.mp word), stops, List.append_nil]

/-- A keyword names its category. -/
theorem keyword_inj {one other : Category} (same : one.keyword.toList = other.keyword.toList) :
    one = other := by
  -- The category is found by its keyword.
  have named : ∀ category : Category, Category.ofKeyword? category.keyword = some category := by
    intro category
    cases category <;> decide
  have keywords : one.keyword = other.keyword := String.toList_injective same
  exact Option.some.inj (by rw [← named one, ← named other, keywords])

/-- A text ends in no more than one way as a call begins. -/
theorem append_callLead_inj {front front' : List Char} {category category' : Category}
    {slack slack' : Padding}
    (same : front ++ callLead category slack = front' ++ callLead category' slack') :
    front = front' ∧ category = category' := by
  -- The last point of the text is that of the call.
  have free : ∀ (category : Category) (slack : Padding),
      '.' ∉ category.keyword.toList ++ slack.around ['('] := by
    intro category slack
    have word : '.' ∉ category.keyword.toList := by cases category <;> decide
    have outside : '.' ∉ slack.around ['('] := slack.not_mem_around (by decide) (by decide)
    simp [word, outside]
  obtain ⟨fronts, tails⟩ :=
    append_separator_inj_of_last (free category slack) (free category' slack') same
  have words := congrArg (List.takeWhile (fun c => !isBlank c && c != '(')) tails
  rw [takeWhile_keyword, takeWhile_keyword] at words
  exact ⟨fronts, keyword_inj words⟩

/-- There are no quotes before the quote that opens a name. -/
theorem all_callLead (category : Category) (slack : Padding) :
    (callLead category slack).all (!isNameQuote ·) = true := by
  have word : (callWord category).all (!isNameQuote ·) = true := by cases category <;> decide
  -- White space is not a quote.
  have blank : ∀ {text : List Char}, (∀ c ∈ text, isBlank c = true) →
      text.all (!isNameQuote ·) = true := by
    intro text blank
    apply List.all_eq_true.mpr
    intro c member
    by_contra quote
    have solid := isBlank_of_isNameQuote (c := c) (by simpa using quote)
    rw [blank c member] at solid
    cases solid
  rw [callLead, Padding.around, List.all_append, List.all_append, List.all_append, word,
    blank slack.isBlank_before, blank slack.isBlank_behind]
  decide

section Scanning

variable {category : Category} {front rest : List Char} {quote : Char}

/-- A call that is read up to the first quote of a text takes up all of the text before it. -/
theorem eq_callLead_of_render (plain : front.all (!isNameQuote ·) = true)
    (isQuote : isNameQuote quote = true) {call : WrittenCall} {behind : List Char}
    (shape : front ++ quote :: rest = call.render ++ behind) :
    front = callLead call.category call.slack := by
  -- A call has no quote before that of its name, so the first quotes of both texts meet.
  rw [WrittenCall.render, List.append_assoc, List.cons_append] at shape
  exact (append_cons_inj_of_first plain (all_callLead _ _) isQuote call.opening.property shape).1

/-- Nothing is read at the front of a text that goes on without quotes, and not as a call begins. -/
theorem front?_append_quote (plain : front.all (!isNameQuote ·) = true)
    (isQuote : isNameQuote quote = true)
    (other : ∀ slack, front ≠ callLead category slack) :
    (declarationRecogniser (callWord category)).front? (front ++ quote :: rest) = none := by
  -- A call read here would take up the text before the quote as its own beginning.
  apply Option.eq_none_iff_forall_ne_some.mpr
  intro found read
  obtain ⟨call, under, _, shape⟩ := declaredName?_eq_some_iff.mp read
  have whole := eq_callLead_of_render plain isQuote shape
  rw [under] at whole
  exact other call.slack whole

/-- Text without quotes is passed over together with the quote behind it, unless it ends as a call
of the category begins. -/
theorem findAll_append_quote (plain : front.all (!isNameQuote ·) = true)
    (isQuote : isNameQuote quote = true)
    (other : ∀ lead slack, front ≠ lead ++ callLead category slack) :
    (declarationRecogniser (callWord category)).findAll (front ++ quote :: rest) =
      (declarationRecogniser (callWord category)).findAll rest := by
  -- No call begins with what is left of the text, at any of its characters.
  have unread : (declarationRecogniser (callWord category)).front? (front ++ quote :: rest) = none :=
    front?_append_quote plain isQuote (other [])
  induction front with
  | nil => exact Recogniser.findAll_cons_of_none unread
  | cons c front ih =>
    rw [List.all_cons, Bool.and_eq_true] at plain
    have other' : ∀ lead slack, front ≠ lead ++ callLead category slack := by
      intro lead slack same
      exact other (c :: lead) slack (congrArg (c :: ·) same)
    rw [List.cons_append] at unread ⊢
    rw [Recogniser.findAll_cons_of_none unread]
    exact ih plain.2 other' (front?_append_quote plain.2 isQuote (other' []))

/-- A text without quotes has no declarations. -/
theorem findAll_of_plain (plain : front.all (!isNameQuote ·) = true) :
    (declarationRecogniser (callWord category)).findAll front = [] := by
  induction front with
  | nil => simp [Recogniser.findAll, Recogniser.findFrom]
  | cons c front ih =>
    have unread : (declarationRecogniser (callWord category)).front? (c :: front) = none := by
      apply Option.eq_none_iff_forall_ne_some.mpr
      intro found read
      obtain ⟨call, _, _, shape⟩ := declaredName?_eq_some_iff.mp read
      -- A call would bring its quotes with it.
      have quote := List.all_eq_true.mp plain call.opening.val (by simp [shape, WrittenCall.render])
      rw [call.opening.property] at quote
      cases quote
    rw [List.all_cons, Bool.and_eq_true] at plain
    rw [Recogniser.findAll_cons_of_none unread]
    exact ih plain.2

/-- A call behind a text without quotes is found under its category. -/
theorem findAll_append_render (plain : front.all (!isNameQuote ·) = true) (call : WrittenCall) :
    (declarationRecogniser (callWord call.category)).findAll (front ++ (call.render ++ rest)) =
      call.name :: (declarationRecogniser (callWord call.category)).findAll rest := by
  induction front with
  | nil =>
    apply Recogniser.findAll_of_front?
    exact declaredName?_eq_some_iff.mpr ⟨call, rfl, rfl, rfl⟩
  | cons c front ih =>
    rw [List.all_cons, Bool.and_eq_true] at plain
    -- What begins before the call does not begin as a call does.
    have unread : (declarationRecogniser (callWord call.category)).front?
        (c :: front ++ callLead call.category call.slack ++
          call.opening.val :: (call.name ++ [call.closing.val] ++ rest)) = none := by
      apply front?_append_quote _ call.opening.property
      · intro slack same
        rw [← List.nil_append (callLead _ slack)] at same
        have nothing := (append_callLead_inj same).1
        cases nothing
      · rw [List.all_append, List.all_cons, plain.1, plain.2, all_callLead]
        rfl
    have shape : c :: front ++ (call.render ++ rest) =
        c :: front ++ callLead call.category call.slack ++
          call.opening.val :: (call.name ++ [call.closing.val] ++ rest) := by
      simp [WrittenCall.render]
    rw [← shape, List.cons_append] at unread
    rw [List.cons_append, Recogniser.findAll_cons_of_none unread]
    exact ih plain.2

/-- A call behind a text without quotes is passed over under another category, when its name has no
parenthesis. -/
theorem findAll_append_render_of_ne (plain : front.all (!isNameQuote ·) = true) {call : WrittenCall}
    (closed : '(' ∉ call.name) (apart : call.category ≠ category) :
    (declarationRecogniser (callWord category)).findAll (front ++ (call.render ++ rest)) =
      (declarationRecogniser (callWord category)).findAll rest := by
  have shape : front ++ (call.render ++ rest) =
      front ++ callLead call.category call.slack ++
        call.opening.val :: (call.name ++ call.closing.val :: rest) := by
    simp [WrittenCall.render]
  have plain' : (front ++ callLead call.category call.slack).all (!isNameQuote ·) = true := by
    rw [List.all_append, plain, all_callLead]
    rfl
  -- The quote that opens the name stands behind the word of the other category.
  rw [shape, findAll_append_quote plain' call.opening.property]
  · -- The quote that closes the name stands behind no parenthesis.
    apply findAll_append_quote call.unquoted call.closing.property
    intro lead slack same
    apply closed
    simp [same, callLead, Padding.around]
  · intro lead slack same
    exact apart (append_callLead_inj same).2

end Scanning

/-- The names that are declared under a category are those of its calls, in the order in which the
calls are written. -/
theorem declaredNames_writtenSource (category : Category) (before : Filler)
    (calls : List (WrittenCall × Filler)) (closed : ∀ entry ∈ calls, '(' ∉ entry.1.name) :
    declaredNames category (writtenSource before calls) =
      (calls.filter (·.1.category == category)).map (·.1.name) := by
  -- Each call is looked at together with the text before it.
  induction calls generalizing before with
  | nil => exact findAll_of_plain before.unquoted
  | cons entry calls ih =>
    obtain ⟨call, behind⟩ := entry
    have closed' : ∀ entry ∈ calls, '(' ∉ entry.1.name := by
      intro entry member
      exact closed entry (List.mem_cons_of_mem _ member)
    have others := ih behind closed'
    rw [declaredNames] at others ⊢
    rw [writtenSource]
    by_cases same : call.category = category
    · subst same
      rw [findAll_append_render before.unquoted, others, List.filter_cons,
        if_pos (beq_self_eq_true call.category), List.map_cons]
    · have plain := closed (call, behind) List.mem_cons_self
      rw [findAll_append_render_of_ne before.unquoted plain same, others, List.filter_cons,
        if_neg (by simpa using same)]

/-- The declarations of a text with written calls are these calls, grouped by category. -/
theorem declarationsIn_writtenSource (before : Filler) (calls : List (WrittenCall × Filler))
    (closed : ∀ entry ∈ calls, '(' ∉ entry.1.name) :
    declarationsIn (String.ofList (writtenSource before calls)) =
      Category.all.flatMap fun category =>
        (calls.map (·.1.declaration)).filter (·.category == category) := by
  rw [declarationsIn, String.toList_ofList]
  congr 1
  funext category
  rw [declaredNames_writtenSource category before calls closed, List.filter_map, List.map_map]
  show _ = (calls.filter (·.1.category == category)).map (·.1.declaration)
  -- What is left to a category are calls under it.
  apply List.map_congr_left
  intro entry member
  have under := (List.mem_filter.mp member).2
  simp only [Function.comp_apply, WrittenCall.declaration, Declaration.mk.injEq, and_true]
  exact (beq_iff_eq.mp under).symm

/-- Grouping declarations by category neither drops nor repeats one. -/
theorem flatMap_filter_category_perm (declarations : List Declaration) :
    (Category.all.flatMap fun category =>
      declarations.filter (·.category == category)).Perm declarations := by
  -- A declaration counts in the group of its own category only.
  apply List.perm_iff_count.mpr
  intro declaration
  have group : ∀ category : Category,
      (declarations.filter (·.category == category)).count declaration =
        if declaration.category = category then declarations.count declaration else 0 := by
    intro category
    by_cases own : declaration.category = category
    · rw [List.count_filter (by simpa using own), if_pos own]
    · rw [if_neg own, List.count_eq_zero]
      intro member
      exact own (beq_iff_eq.mp (List.mem_filter.mp member).2)
  rw [List.count_flatMap]
  simp only [Category.all, Function.comp_def, List.map_cons, List.map_nil, group, List.sum_cons,
    List.sum_nil]
  cases declaration.category <;> simp

/-- A text of written calls is analysed into these calls, grouped by category and otherwise in their
own order, and each with the path and the number of lines of the text. -/
theorem ofContent_writtenSource (path : String) (before : Filler)
    (calls : List (WrittenCall × Filler)) (closed : ∀ entry ∈ calls, '(' ∉ entry.1.name) :
    let text := writtenSource before calls
    let written := calls.map (·.1.declaration)
    let constructs := (Analysis.ofContent path (String.ofList text)).constructs
    let declared := constructs.map fun entry => Declaration.mk entry.1 entry.2.name
    declared = (Category.all.flatMap fun category => written.filter (·.category == category)) ∧
      declared.Perm written ∧
      ∀ entry ∈ constructs, entry.2.path = path ∧ entry.2.loc = 1 + text.count '\n' := by
  intro text written constructs declared
  have shape : constructs =
      (declarationsIn (String.ofList text)).map fun declaration => (declaration.category,
        ⟨declaration.name, path, dependenciesOf (String.ofList text), lineCount text,
          Markers.ofText text⟩) := by
    simp only [constructs, Analysis.ofContent, String.toList_ofList]
  -- Each declaration becomes one construct, which keeps its category and its name.
  have grouped : declared =
      Category.all.flatMap fun category => written.filter (·.category == category) := by
    rw [← declarationsIn_writtenSource before calls closed]
    simp only [declared, shape, List.map_map]
    exact List.map_id _
  refine ⟨grouped, ?_, ?_⟩
  · rw [grouped]
    exact flatMap_filter_category_perm written
  · intro entry member
    rw [shape] at member
    obtain ⟨declaration, _, rfl⟩ := List.mem_map.mp member
    exact ⟨rfl, Nat.add_comm (text.count '\n') 1⟩

/-- Calls with parts of other calls in their names and between them. -/
def crowdedCalls : List (WrittenCall × Filler) := [
  ({ category := .service
     name := ".component )\n".toList
     slack := { before := ['\t'], behind := ['\r', '\n'] }
     opening := ⟨'\x22', rfl⟩ },
   { text := ", f).factory(".toList }),
  ({ category := .component
     name := "service".toList
     slack := { before := ['\n', '\t'], behind := ['\t'] } },
   { text := ".service (component ".toList }),
  ({ category := .service
     name := [' ']
     slack := { before := ['\t', ' '], behind := [' ', '\t'] }
     closing := ⟨'\x22', rfl⟩ },
   {})]

/-- Of crowded calls those under an earlier category come first. -/
theorem ofContent_writtenSource_crowded :
    let before : Filler := { text := ".component( // \n".toList }
    let analysis := Analysis.ofContent "a.js" (String.ofList (writtenSource before crowdedCalls))
    (∀ entry ∈ crowdedCalls, '(' ∉ entry.1.name) ∧
      analysis.constructs.map (fun entry => Declaration.mk entry.1 entry.2.name) =
        [⟨.component, "service"⟩, ⟨.service, ".component )\n"⟩, ⟨.service, " "⟩] ∧
      ∀ entry ∈ analysis.constructs, entry.2.path = "a.js" ∧ entry.2.loc = 5 := by
  -- The names have no parenthesis, and the rest is computed.
  intro before analysis
  have closed : ∀ entry ∈ crowdedCalls, '(' ∉ entry.1.name := by decide
  obtain ⟨grouped, _, facts⟩ := ofContent_writtenSource "a.js" before crowdedCalls closed
  refine ⟨closed, grouped.trans (by decide), ?_⟩
  intro entry member
  obtain ⟨under, lines⟩ := facts entry member
  exact ⟨under, lines.trans (by decide)⟩

end Stocktake
