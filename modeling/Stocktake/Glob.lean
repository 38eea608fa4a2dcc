import Stocktake.Text.Recogniser
import Stocktake.Text.Wildcard

/-! Globs are the patterns that leave paths out of a scan; their wildcards pass slashes too. -/

namespace Stocktake

/-- The characters from one to another, both included. -/
structure CharRange where
  first : Char
  last : Char
  deriving DecidableEq, Repr

/-- A range holds what stands between its ends in the order of code points. -/
def CharRange.holds (range : CharRange) (c : Char) : Bool :=
  range.first ≤ c && c ≤ range.last

/-- Why a glob is refused. -/
inductive GlobError
  | tooManyStars
  | starsBesideName
  | openRange
  deriving DecidableEq, Repr

/-- The wording of a refusal. -/
def GlobError.message : GlobError → String
  | .tooManyStars => "wildcards are either regular \x60*\x60 or recursive \x60**\x60"
  | .starsBesideName => "recursive wildcards must form a single path component"
  | .openRange => "invalid range pattern"

/-- An error with the number of characters that stand before it. -/
structure GlobFlaw where
  position : Nat
  error : GlobError
  deriving DecidableEq, Repr

/-- The wording of a flaw. -/
def GlobFlaw.message (flaw : GlobFlaw) : String :=
  "Pattern syntax error near position " ++ flaw.position.repr ++ ": " ++ flaw.error.message

/-- A part of a glob. -/
inductive GlobPart
  | exactly (c : Char)
  | anyCharacter
  | anyText
  /-- Any number of whole components. -/
  | anyComponents
  | within (ranges : List CharRange)
  | outside (ranges : List CharRange)
  deriving DecidableEq, Repr

/-- A glob is a sequence of parts. -/
abbrev Glob := List GlobPart

/-- The ranges between brackets: two characters with a hyphen between, or one by itself. -/
def rangesOf : List Char → List CharRange
  | first :: '-' :: last :: rest => ⟨first, last⟩ :: rangesOf rest
  | c :: rest => ⟨c, c⟩ :: rangesOf rest
  | [] => []

/-- The members of a class up to its closing bracket; the first is a member whatever it is. -/
def classBody? : List Char → Option (List Char × List Char)
  | [] => none
  | first :: text =>
    match text.dropWhile (· != ']') with
    | [] => none
    | _ :: rest => some (first :: text.takeWhile (· != ']'), rest)

/-- A class takes up room. -/
theorem length_of_classBody? {text body rest : List Char}
    (read : classBody? text = some (body, rest)) : rest.length < text.length := by
  -- What is read ends before a bracket, and the bracket itself is taken with it.
  unfold classBody? at read
  split at read
  · simp at read
  · rename_i first inner
    split at read
    · simp at read
    · rename_i closed
      simp only [Option.some.injEq, Prod.mk.injEq] at read
      have bound := (List.dropWhile_sublist (· != ']') (l := inner)).length_le
      rw [closed, List.length_cons] at bound
      rw [← read.2, List.length_cons]
      omega

namespace Glob

/-- Puts a part before the parts of the rest. -/
def consPart (part : GlobPart) (rest : Except GlobFlaw Glob) : Except GlobFlaw Glob :=
  rest.map (part :: ·)

/-- Reads a glob from a position on, which begins a component or goes on with one. -/
def parseFrom (position : Nat) (fresh : Bool) (text : List Char) : Except GlobFlaw Glob :=
  match text with
  | [] => .ok []
  | '?' :: rest => consPart .anyCharacter (parseFrom (position + 1) false rest)
  | '*' :: '*' :: '*' :: _ => .error ⟨position + 2, .tooManyStars⟩
  | '*' :: '*' :: rest =>
    if !fresh then .error ⟨position - 1, .starsBesideName⟩
    else
      -- The slash behind two stars belongs to the components they stand for.
      match rest with
      | [] => .ok [.anyComponents]
      | '/' :: rest => consPart .anyComponents (parseFrom (position + 3) true rest)
      | _ => .error ⟨position + 2, .starsBesideName⟩
  | '*' :: rest => consPart .anyText (parseFrom (position + 1) false rest)
  | '[' :: '!' :: rest =>
    match _found : classBody? rest with
    | some (body, rest) =>
      consPart (.outside (rangesOf body)) (parseFrom (position + body.length + 3) false rest)
    | none => .error ⟨position, .openRange⟩
  | '[' :: rest =>
    match _found : classBody? rest with
    | some (body, rest) =>
      consPart (.within (rangesOf body)) (parseFrom (position + body.length + 2) false rest)
    | none => .error ⟨position, .openRange⟩
  | c :: rest => consPart (.exactly c) (parseFrom (position + 1) (c == '/') rest)
termination_by text.length
decreasing_by
  all_goals try have := length_of_classBody? (by assumption)
  all_goals simp_all only [List.length_cons]; omega

/-- Reads a glob. -/
def parse (text : String) : Except GlobFlaw Glob :=
  parseFrom 0 true text.toList

end Glob

/-- Any number of components: nothing, all through a slash, or all that is left. -/
def componentsWildcard : Wildcard Char :=
  .either (.either .nothing (.through (· == '/'))) .toEnd

/-- What a part of a glob reads; each wildcard also reads slashes. -/
def GlobPart.wildcard : GlobPart → Wildcard Char
  | .exactly c => .one (· == c)
  | .anyCharacter => .one fun _ => true
  | .anyText => .many fun _ => true
  | .anyComponents => componentsWildcard
  | .within ranges => .one fun c => ranges.any (·.holds c)
  | .outside ranges => .one fun c => !ranges.any (·.holds c)

/-- A glob matches a path when its parts can read all of its text. -/
def Glob.matchesPath (glob : Glob) (path : String) : Bool :=
  (Wildcard.inTurn (glob.map GlobPart.wildcard)).matchesAll path.toList

end Stocktake
