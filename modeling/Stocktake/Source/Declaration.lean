import Stocktake.Category
import Stocktake.Text.Blank
import Stocktake.Text.Recogniser

/-! Declarations are calls such as `.component('name'` that register a construct by name. -/

namespace Stocktake

/-- A declaration registers a name under a category. -/
structure Declaration where
  category : Category
  name : String
  deriving DecidableEq, Repr

/-- A declared name stands between single or double quotes. -/
def isNameQuote (c : Char) : Bool :=
  c == '\x27' || c == '\x22'

/-- Reads a quoted name: at least one character that is no quote, and a quote on either side. -/
def quotedName? : List Char → Option (List Char × List Char)
  | [] => none
  | c :: text =>
    if isNameQuote c then
      -- The opening and the closing quote may be different ones.
      match text.takeWhile (!isNameQuote ·), text.dropWhile (!isNameQuote ·) with
      | first :: name, _ :: rest => some (first :: name, rest)
      | _, _ => none
    else none

/-- Reads the quoted first argument of a call, past the white space around its parenthesis. -/
def firstArgument? (text : List Char) : Option (List Char × List Char) :=
  match text.dropWhile isBlank with
  | '(' :: rest => quotedName? (rest.dropWhile isBlank)
  | _ => none

/-- The word that calls for a declaration of a category. -/
def callWord (category : Category) : List Char :=
  '.' :: category.keyword.toList

/-- Reads a declaration that a word calls for, up to the quoted name behind it. -/
def declaredName? (word text : List Char) : Option (List Char × List Char) :=
  match word.isPrefixOf? text with
  | some rest => firstArgument? rest
  | none => none

/-- A quoted name takes up room. -/
theorem quotedName?_shorter {text name rest : List Char}
    (read : quotedName? text = some (name, rest)) : rest.length < text.length := by
  -- The rest lies behind the quote that closes the name.
  cases text with
  | nil => simp [quotedName?] at read
  | cons c text =>
    simp only [quotedName?] at read
    split at read
    · split at read
      · rename_i closed
        simp only [Option.some.injEq, Prod.mk.injEq] at read
        have bound := (List.dropWhile_sublist (!isNameQuote ·) (l := text)).length_le
        rw [closed, List.length_cons] at bound
        rw [← read.2, List.length_cons]
        omega
      · simp at read
    · simp at read

/-- A quoted first argument takes up room. -/
theorem firstArgument?_shorter {text name rest : List Char}
    (read : firstArgument? text = some (name, rest)) : rest.length < text.length := by
  -- White space and the parenthesis only add to what the name takes up.
  simp only [firstArgument?] at read
  split at read
  · rename_i inner opened
    have outer := (List.dropWhile_sublist isBlank (l := text)).length_le
    have blank := (List.dropWhile_sublist isBlank (l := inner)).length_le
    have name := quotedName?_shorter read
    rw [opened, List.length_cons] at outer
    omega
  · simp at read

/-- A declaration takes up room. -/
theorem declaredName?_shorter {word text name rest : List Char}
    (read : declaredName? word text = some (name, rest)) : rest.length < text.length := by
  -- The keyword comes before its argument, and the argument alone takes up room.
  simp only [declaredName?] at read
  split at read
  · rename_i opened
    have keyword := length_of_isPrefixOf? opened
    have argument := firstArgument?_shorter read
    omega
  · simp at read

/-- Recognises the declarations that a word calls for and yields their names. -/
def declarationRecogniser (word : List Char) : Recogniser (List Char) where
  front? := declaredName? word
  shorter := declaredName?_shorter

/-- The names declared under a category, in the order of the text. -/
def declaredNames (category : Category) (text : List Char) : List (List Char) :=
  (declarationRecogniser (callWord category)).findAll text

/-- All declarations of a source text, category by category and in the order of the text. -/
def declarationsIn (content : String) : List Declaration :=
  Category.all.flatMap fun category =>
    (declaredNames category content.toList).map fun name => ⟨category, String.ofList name⟩

end Stocktake
