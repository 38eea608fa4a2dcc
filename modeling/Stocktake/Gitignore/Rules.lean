import Stocktake.Gitignore.Nesting
import Stocktake.Gitignore.Size
import Stocktake.Path
import Stocktake.Text.Blank

/-! Ignore files: each line is a rule on paths, and the last rule that applies decides. -/

namespace Stocktake.Gitignore

/-- What a rule says about a path. -/
inductive Verdict
  | ignored
  /-- The path is taken even if its name is hidden. -/
  | included
  deriving DecidableEq, Repr

/-- A rule applies to the paths that its pattern matches, or to directories among them only. -/
structure Rule where
  pattern : Pattern
  verdict : Verdict
  directoriesOnly : Bool

/-- Drops the white space at the end of a line, unless its last blank is escaped. -/
def dropMargin (line : List Char) : List Char :=
  match line.reverse with
  | ' ' :: '\\' :: _ => line
  | backwards => (backwards.dropWhile isBlank).reverse

/-- A line taken apart: its verdict, whether it is tied to its directory, and the rest. -/
def readMarks : List Char → Verdict × Bool × List Char
  | '\\' :: '!' :: line => (.ignored, false, '!' :: line)
  | '\\' :: '#' :: line => (.ignored, false, '#' :: line)
  | '!' :: '/' :: line => (.included, true, line)
  | '!' :: line => (.included, false, line)
  | '/' :: line => (.ignored, true, line)
  | line => (.ignored, false, line)

/-- Takes a slash off the end of a line, with the backslash that may escape it. -/
def dropFinalSlash (line : List Char) : Option (List Char) :=
  match line.reverse with
  | '/' :: '\\' :: backwards => some backwards.reverse
  | '/' :: backwards => some backwards.reverse
  | _ => none

/-- The text of a pattern: one without a slash may match in any directory. -/
def anchor (tied : Bool) (text : List Char) : List Char :=
  if tied || text.contains '/' || text == "**".toList then text else "**/".toList ++ text

/-- Two stars at the end match what is in a directory, but not the directory. -/
def insideOnly (text : List Char) : List Char :=
  if "/**".toList.isSuffixOf text then text ++ "/*".toList else text

/-- The rule of a line; comments, blank lines and malformed patterns have none. -/
def Rule.ofLine? (line : List Char) : Option Rule :=
  -- A comment is told by its very first character, before anything is dropped.
  let trimmed := dropMargin line
  if line.head? == some '#' || trimmed.isEmpty then none
  else
    let (verdict, tied, text) := readMarks trimmed
    let body := (dropFinalSlash text).getD text
    (parse? (insideOnly (anchor tied body))).map fun pattern =>
      ⟨pattern, verdict, (dropFinalSlash text).isSome⟩

/-- The lines of a file, without the line feeds and the carriage returns before them. -/
def linesOf (content : Bytes) : List Bytes :=
  let segments := content.splitOn 10
  segments.dropLast.map (fun line => if line.getLast? = some 13 then line.dropLast else line) ++
    segments.getLast?.toList

/-- The texts of lines up to the first that is no UTF-8. -/
def textLines (lines : List Bytes) : List (List Char) :=
  match lines with
  | [] => []
  | line :: rest =>
    match utf8Decode? line with
    | some text => text :: textLines rest
    | none => []

/-- Drops byte order marks in front of the first line. -/
def dropMarks : List (List Char) → List (List Char)
  | [] => []
  | line :: lines => line.dropWhile (· == '\ufeff') :: lines

/-- The rules of an ignore file in the order of their lines; one that goes too far bars all. -/
def rulesOf (content : Bytes) : List Rule :=
  let rules := (dropMarks (textLines (linesOf content))).filterMap Rule.ofLine?
  let patterns := rules.map Rule.pattern
  if patterns.all (·.depth ≤ nestingLimit) && fitTogether patterns then rules else []

/-- A rule applies to a path. -/
def Rule.applies (rule : Rule) (path : String) (isDirectory : Bool) : Bool :=
  rule.pattern.matchesPath path && (isDirectory || !rule.directoriesOnly)

/-- What the last rule that applies to a path says. -/
def verdict? (rules : List Rule) (path : String) (isDirectory : Bool) : Option Verdict :=
  (rules.reverse.find? (·.applies path isDirectory)).map Rule.verdict

/-- A path without a dot and a slash in front. -/
def dropDotSlash (path : List Char) : List Char :=
  ("./".toList.isPrefixOf? path).getD path

/-- A path without a slash in front. -/
def dropSlash (path : List Char) : List Char :=
  ("/".toList.isPrefixOf? path).getD path

/-- The path that rules of a directory see: it is relative to that directory when it names it. -/
def pathSeenFrom (directory path : String) : String :=
  let base := dropDotSlash directory.toList
  let text := dropDotSlash (dropDotSlash path.toList)
  -- A bare name has nothing to take off, and the working directory is not spelled out.
  if Path.components (String.ofList base) = [.current] || !text.contains '/' then String.ofList text
  else String.ofList ((base.isPrefixOf? text).elim text dropSlash)

end Stocktake.Gitignore
