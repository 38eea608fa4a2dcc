import Stocktake.Source.Declaration

/-! Calls that register a name as they are written down, and source texts that are written as such
calls with other text between them. -/

namespace Stocktake

/-- A character that may stand before or behind a declared name. -/
abbrev NameQuote : Type :=
  { c : Char // isNameQuote c = true }

/-- A call as it is written, up to the quote behind the name that it registers. -/
structure WrittenCall where
  category : Category
  name : List Char
  filled : name ≠ [] := by decide
  unquoted : name.all (!isNameQuote ·) = true := by decide
  /-- The white space on both sides of the parenthesis. -/
  slack : Padding := {}
  /-- The quotes on both sides of the name, which may be different ones. -/
  opening : NameQuote := ⟨'\x27', rfl⟩
  closing : NameQuote := ⟨'\x27', rfl⟩

/-- What is written before the quote that opens a name. -/
def callLead (category : Category) (slack : Padding) : List Char :=
  callWord category ++ slack.around ['(']

/-- The text that is written for a call. -/
def WrittenCall.render (call : WrittenCall) : List Char :=
  callLead call.category call.slack ++
    call.opening.val :: (call.name ++ [call.closing.val])

/-- The declaration that is written as a call. -/
def WrittenCall.declaration (call : WrittenCall) : Declaration :=
  ⟨call.category, String.ofList call.name⟩

/-- A text without quotes, which may stand between calls. -/
structure Filler where
  text : List Char := []
  unquoted : text.all (!isNameQuote ·) = true := by decide

/-- The source text of calls, with one text before them and one behind each of them. -/
def writtenSource (before : Filler) : List (WrittenCall × Filler) → List Char
  | [] => before.text
  | (call, behind) :: calls => before.text ++ (call.render ++ writtenSource behind calls)

end Stocktake
