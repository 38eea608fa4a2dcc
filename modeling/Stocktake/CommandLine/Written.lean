import Mathlib.Algebra.GroupWithZero.Nat
import Stocktake.CommandLine.Parser

/-! An analysis is written as arguments: its options in any order, and its path behind dashes. -/

namespace Stocktake.CommandLine

/-- The long name of an option that takes a value. -/
def Setting.name : Setting → String
  | .output => "output"
  | .format => "format"
  | .config => "config"
  | .jobs => "jobs"

/-- The name of a format. -/
def formatName : Format → String
  | .terminal => "terminal"
  | .json => "json"

/-- An option with its value attached. -/
def assigned (setting : Setting) (value : String) : String :=
  "--" ++ setting.name ++ "=" ++ value

/-- An argument in which an option of an analysis is written. -/
inductive Word
  | output (path : String)
  | format (format : Format)
  | config (path : String)
  | jobs (count : Nat)
  | quiet
  | quietLetter
  | plain
  | noParallel
  | verbose
  /-- Letters written together, one more than the number. -/
  | verboseLetters (others : Nat)
  deriving DecidableEq, Repr

namespace Word

/-- The argument itself. -/
def text : Word → String
  | .output path => assigned .output path
  | .format wanted => assigned .format (formatName wanted)
  | .config path => assigned .config path
  | .jobs count => assigned .jobs count.repr
  | .quiet => "--quiet"
  | .quietLetter => "-q"
  | .plain => "--plain"
  | .noParallel => "--no-parallel"
  | .verbose => "--verbose"
  | .verboseLetters others => String.ofList ('-' :: List.replicate (others + 1) 'v')

/-- The report file that a word names. -/
def output? : Word → Option String
  | .output path => some path
  | _ => none

/-- The format that a word names. -/
def format? : Word → Option Format
  | .format wanted => some wanted
  | _ => none

/-- The settings file that a word names. -/
def config? : Word → Option String
  | .config path => some path
  | _ => none

/-- The number of workers that a word gives. -/
def jobs? : Word → Option Nat
  | .jobs count => some count
  | _ => none

/-- A word asks for quiet. -/
def isQuiet : Word → Bool
  | .quiet => true
  | .quietLetter => true
  | _ => false

/-- How often a word asks for more log output, if it does. -/
def wishes? : Word → Option Nat
  | .verbose => some 1
  | .verboseLetters others => some (others + 1)
  | _ => none

end Word

/-- Words write an analysis when they give each of its options once, and leave out only what it has
by default. The log output is asked for as often as the analysis says, in any of the ways. -/
structure Writes (words : List Word) (options : AnalyzeOptions) : Prop where
  output : words.filterMap Word.output? = options.output.toList
  format : words.filterMap Word.format? = [options.format] ∨
    words.filterMap Word.format? = [] ∧ options.format = .terminal
  config : words.filterMap Word.config? = options.config.toList
  jobs : words.filterMap Word.jobs? = [options.jobs] ∨
    words.filterMap Word.jobs? = [] ∧ options.jobs = 0
  quiet : words.countP Word.isQuiet = options.quiet.toNat
  plain : words.count .plain = options.plain.toNat
  noParallel : words.count .noParallel = options.noParallel.toNat
  verbosity : (words.filterMap Word.wishes?).sum = options.verbosity

/-- The arguments that ask for an analysis of a path. -/
def writtenArguments (words : List Word) (path : String) : List String :=
  "analyze" :: words.map Word.text ++ ["--", path]

end Stocktake.CommandLine
