import Stocktake.CommandLine.Basic

/-! Parsing a command line: options in any order, values attached or in the next argument. -/

namespace Stocktake.CommandLine

/-- An option that takes no value. -/
inductive Flag
  | quiet
  | verbose
  | plain
  | noParallel
  | force
  | help
  deriving DecidableEq, Repr

/-- An option that takes a value. -/
inductive Setting
  | output
  | format
  | config
  | jobs
  deriving DecidableEq, Repr

/-- What an option name stands for. -/
inductive OptionName
  | flag (flag : Flag)
  | setting (setting : Setting)
  deriving DecidableEq, Repr

/-- The options of a command by their long and their short names. -/
structure Grammar where
  long : List (String × OptionName)
  short : List (Char × OptionName)
  /-- The command takes a path besides its options. -/
  takesPath : Bool

/-- The options of an analysis. -/
def analyzeGrammar : Grammar where
  long :=
    [("output", .setting .output), ("format", .setting .format), ("config", .setting .config),
      ("quiet", .flag .quiet), ("verbose", .flag .verbose), ("plain", .flag .plain),
      ("no-parallel", .flag .noParallel), ("jobs", .setting .jobs), ("help", .flag .help)]
  short :=
    [('o', .setting .output), ('f', .setting .format), ('c', .setting .config),
      ('q', .flag .quiet), ('v', .flag .verbose), ('j', .setting .jobs), ('h', .flag .help)]
  takesPath := true

/-- The options of the creation of a configuration file. -/
def initGrammar : Grammar where
  long := [("force", .flag .force), ("help", .flag .help)]
  short := [('f', .flag .force), ('h', .flag .help)]
  takesPath := false

/-- What the arguments so far have given. -/
structure Given where
  path : Option String := none
  output : Option String := none
  format : Option Format := none
  config : Option String := none
  jobs : Option Nat := none
  quiet : Bool := false
  plain : Bool := false
  noParallel : Bool := false
  force : Bool := false
  verbosity : Nat := 0
  deriving DecidableEq, Repr

/-- Verbosity is counted up to this number. -/
def maxVerbosity : Nat := 255

/-- Reads a path, which has to have some text. -/
def readPath (text : String) : Except Stop String :=
  if text.isEmpty then .error .invalidValue else .ok text

/-- Reads a format by its exact name. -/
def readFormat (text : String) : Except Stop Format :=
  if text == "terminal" then .ok .terminal
  else if text == "json" then .ok .json
  else .error .invalidValue

/-- Reads a number of 64 bits in decimal digits, with or without a plus sign. -/
def readNumber (text : String) : Except Stop Nat :=
  let digits := match text.toList with
    | '+' :: digits => digits
    | digits => digits
  let n := Nat.ofDigitChars 10 digits 0
  if digits.isEmpty || !digits.all Char.isDigit || wordBound ≤ n then .error .valueValidation
  else .ok n

/-- Sets what may be set once; a second value is a conflict, whether or not it could be read. -/
def setOnce {α : Type} (current : Option α) (value : Except Stop α) : Except Stop (Option α) :=
  match current with
  | some _ => .error .argumentConflict
  | none => value.map some

/-- Raises a flag that may be given once. -/
def raiseOnce (current : Bool) : Except Stop Bool :=
  if current then .error .argumentConflict else .ok true

namespace Given

/-- Takes the value of an option. -/
def set (given : Given) (setting : Setting) (text : String) : Except Stop Given := do
  match setting with
  | .output => return { given with output := ← setOnce given.output (readPath text) }
  | .format => return { given with format := ← setOnce given.format (readFormat text) }
  | .config => return { given with config := ← setOnce given.config (readPath text) }
  | .jobs => return { given with jobs := ← setOnce given.jobs (readNumber text) }

/-- Takes a flag; only verbosity may be given again, and help ends the parsing. -/
def raise (given : Given) (flag : Flag) : Except Stop Given := do
  match flag with
  | .quiet => return { given with quiet := ← raiseOnce given.quiet }
  | .plain => return { given with plain := ← raiseOnce given.plain }
  | .noParallel => return { given with noParallel := ← raiseOnce given.noParallel }
  | .force => return { given with force := ← raiseOnce given.force }
  | .verbose => return { given with verbosity := min (given.verbosity + 1) maxVerbosity }
  | .help => .error .displayHelp

end Given

/-- An argument whose value is judged only when the next option, the path or the end is reached. -/
inductive Pending
  | nothing
  /-- An option whose value should be the next argument. -/
  | awaiting (setting : Setting)
  | value (setting : Setting) (text : String)
  | path (text : String)
  deriving DecidableEq, Repr

/-- How far the parsing has come. -/
structure Progress where
  given : Given := {}
  pending : Pending := .nothing
  /-- The path has been given, although it may not have been judged. -/
  hasPath : Bool := false
  deriving DecidableEq, Repr

namespace Progress

/-- Judges what is pending. -/
def settle (progress : Progress) : Except Stop Progress := do
  let given ← match progress.pending with
    | .nothing => .ok progress.given
    | .awaiting _ => .error .invalidValue
    | .value setting text => progress.given.set setting text
    | .path text => (readPath text).map fun path => { progress.given with path := some path }
  return { progress with given, pending := .nothing }

/-- Takes a flag. -/
def raise (progress : Progress) (flag : Flag) : Except Stop Progress := do
  let progress ← progress.settle
  return { progress with given := ← progress.given.raise flag }

/-- Takes an option with the value that is attached to it, if any. -/
def set (progress : Progress) (setting : Setting) (attached : Option String) :
    Except Stop Progress := do
  let progress ← progress.settle
  match attached with
  | some text => return { progress with given := ← progress.given.set setting text }
  | none => return { progress with pending := .awaiting setting }

/-- Takes an argument that is no option: the path, when one is missing still. -/
def takePath (grammar : Grammar) (progress : Progress) (text : String) : Except Stop Progress :=
  -- A superfluous argument is reported before anything that is pending.
  if !grammar.takesPath || progress.hasPath then .error .unknownArgument
  else do
    let progress ← progress.settle
    return { progress with pending := .path text, hasPath := true }

/-- Takes a long option, without its dashes. -/
def takeLong (grammar : Grammar) (progress : Progress) (text : List Char) :
    Except Stop Progress :=
  let name := String.ofList (text.takeWhile (· != '='))
  let attached := match text.dropWhile (· != '=') with
    | _ :: value => some (String.ofList value)
    | [] => none
  match grammar.long.lookup name, attached with
  | none, _ => .error .unknownArgument
  | some (.flag flag), none => progress.raise flag
  | some (.flag _), some _ => .error .tooManyValues
  | some (.setting setting), _ => progress.set setting attached

/-- Takes short options written together; the first that takes a value takes the rest as such. -/
def takeShort (grammar : Grammar) (progress : Progress) : List Char → Except Stop Progress
  | [] => .ok progress
  | c :: rest =>
    match grammar.short.lookup c with
    | none => .error .unknownArgument
    | some (.flag flag) => do takeShort grammar (← progress.raise flag) rest
    | some (.setting setting) =>
      match rest with
      | [] => progress.set setting none
      | '=' :: value => progress.set setting (some (String.ofList value))
      | value => progress.set setting (some (String.ofList value))

/-- Takes an argument that comes before any pair of dashes. -/
def take (grammar : Grammar) (progress : Progress) (argument : String) : Except Stop Progress :=
  match argument.toList with
  | '-' :: '-' :: text => progress.takeLong grammar text
  -- A dash alone is no option.
  | '-' :: c :: text => progress.takeShort grammar (c :: text)
  | _ =>
    match progress.pending with
    | .awaiting setting => .ok { progress with pending := .value setting argument }
    | _ => progress.takePath grammar argument

end Progress

/-- Takes the arguments of a command; behind a pair of dashes none of them is an option. -/
def takeAll (grammar : Grammar) (progress : Progress) : List String → Except Stop Given
  | [] => do return (← progress.settle).given
  | argument :: rest =>
    if argument = "--" then do
      let progress ← rest.foldlM (Progress.takePath grammar) progress
      return (← progress.settle).given
    else do takeAll grammar (← progress.take grammar argument) rest

/-- The options of an analysis, with defaults for those that were not given. -/
def Given.analyzeOptions (given : Given) : AnalyzeOptions :=
  let standard : AnalyzeOptions := {}
  { path := given.path.getD standard.path
    output := given.output
    format := given.format.getD standard.format
    config := given.config
    quiet := given.quiet
    verbosity := given.verbosity
    plain := given.plain
    noParallel := given.noParallel
    jobs := given.jobs.getD standard.jobs }

/-- The commands by name. -/
def commandNames : List String :=
  ["analyze", "init", "help"]

/-- Asks for the help of a command, which has to be the only name that follows. -/
def helpFor : List String → Stop
  | [] => .displayHelp
  | [name] => if name ∈ commandNames then .displayHelp else .invalidSubcommand
  | _ => .invalidSubcommand

/-- What short options written together ask for when no command precedes them. -/
def topLevelShort : List Char → Stop
  | 'h' :: _ => .displayHelp
  | 'V' :: _ => .displayVersion
  | _ => .unknownArgument

/-- What a long option asks for when no command precedes it; neither of the two takes a value. -/
def topLevelLong (text : List Char) : Stop :=
  let name := text.takeWhile (· != '=')
  if name != "help".toList && name != "version".toList then .unknownArgument
  else if name != text then .tooManyValues
  else if name == "help".toList then .displayHelp
  else .displayVersion

/-- The command that arguments ask for. -/
def parse : List String → Except Stop Command
  | [] => .error .displayHelpOnMissingArgumentOrSubcommand
  | "analyze" :: rest => do return .analyze (← takeAll analyzeGrammar {} rest).analyzeOptions
  | "init" :: rest => do return .init (← takeAll initGrammar {} rest).force
  | "help" :: rest => .error (helpFor rest)
  | "--" :: rest =>
    match rest with
    | [] => .error .displayHelpOnMissingArgumentOrSubcommand
    | name :: _ =>
      -- Behind a pair of dashes a command is not looked for.
      .error (if name ∈ commandNames then .unknownArgument else .invalidSubcommand)
  | argument :: _ =>
    match argument.toList with
    | '-' :: '-' :: text => .error (topLevelLong text)
    | '-' :: c :: text => .error (topLevelShort (c :: text))
    | _ => .error .invalidSubcommand

end Stocktake.CommandLine
