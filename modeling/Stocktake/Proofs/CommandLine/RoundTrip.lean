import Mathlib.Algebra.BigOperators.Group.List.Basic
import Stocktake.CommandLine.Written

/-! An analysis that is written as arguments is parsed back, whatever the order of its options. -/

namespace Stocktake.CommandLine

/-- A number of 64 bits reads back from its digits. -/
theorem readNumber_repr {n : Nat} (fits : n < wordBound) : readNumber n.repr = .ok n := by
  have filled := Nat.toDigits_ne_nil (n := n) (b := 10)
  have digit : ∀ c ∈ Nat.toDigits 10 n, c.isDigit = true := fun c member =>
    Nat.isDigit_of_mem_toDigits (by decide) (by decide) member
  have value := Nat.ofDigitChars_ten_toDigits (n := n)
  rw [readNumber, Nat.toList_repr]
  generalize Nat.toDigits 10 n = digits at filled digit value
  have all : digits.all Char.isDigit = true := List.all_eq_true.mpr digit
  split
  · -- No sign stands before the digits.
    exact absurd (digit '+' List.mem_cons_self) (by decide)
  · rw [value, all, if_neg]
    simp [filled, fits]

/-- A format reads back from its name. -/
theorem readFormat_formatName (format : Format) : readFormat (formatName format) = .ok format := by
  -- There are two formats, each with its name.
  cases format <;> rfl

/-- A path that has some text is read as it is. -/
theorem readPath_of_ne {path : String} (filled : path ≠ "") : readPath path = .ok path := by
  -- Only the empty text is refused as a path.
  simp [readPath, filled]

/-- An option with its value has dashes in front and an equals sign behind its name. -/
theorem toList_assigned (setting : Setting) (value : String) :
    (assigned setting value).toList =
      '-' :: '-' :: (setting.name.toList ++ '=' :: value.toList) := by
  -- The characters of joined texts are joined.
  simp [assigned]

/-- An option with its value is a long option whose name ends at the equals sign. -/
theorem takeLong_assigned (progress : Progress) (setting : Setting) (value : String) :
    progress.take analyzeGrammar (assigned setting value) = progress.set setting (some value) := by
  -- No name of a setting has an equals sign, so the first one is that before the value.
  have plain : ∀ c ∈ setting.name.toList, (c != '=') = true := by
    cases setting <;> simp [Setting.name]
  have known : analyzeGrammar.long.lookup setting.name = some (.setting setting) := by
    cases setting <;> rfl
  have name : (setting.name.toList ++ '=' :: value.toList).takeWhile (· != '=') =
      setting.name.toList := by
    rw [List.takeWhile_append_of_pos plain]
    simp
  have behind : (setting.name.toList ++ '=' :: value.toList).dropWhile (· != '=') =
      '=' :: value.toList := by
    rw [List.dropWhile_append_of_pos plain]
    simp
  rw [Progress.take, toList_assigned]
  simp only [Progress.takeLong, name, behind, String.ofList_toList, known]

namespace Given

/-- What is given once more log output is asked for some times more. -/
def wish (given : Given) (times : Nat) : Given :=
  { given with verbosity := min (given.verbosity + times) maxVerbosity }

/-- Counting stops at the greatest number, however the wishes are split. -/
theorem wish_wish (given : Given) (first second : Nat) :
    (given.wish first).wish second = given.wish (second + first) := by
  -- Below the bound counts add up, and from the bound on they stay.
  have counted : min (min (given.verbosity + first) maxVerbosity + second) maxVerbosity =
      min (given.verbosity + (second + first)) maxVerbosity := by
    omega
  simp only [wish, counted]

/-- Further wishes are counted with those that have been counted already. -/
theorem min_wish (given : Given) (times others : Nat) :
    min ((given.wish times).verbosity + others) maxVerbosity =
      min (given.verbosity + (times + others)) maxVerbosity := by
  -- Cutting the count of some wishes before the others are added cuts nothing else.
  simp only [wish]
  omega

end Given

namespace Progress

variable {progress : Progress}

/-- Where nothing is pending there is nothing to judge. -/
theorem settle_of_nothing (idle : progress.pending = .nothing) :
    progress.settle = .ok progress := by
  -- Only a pending path or value is judged.
  obtain ⟨given, pending, hasPath⟩ := progress
  subst idle
  rfl

/-- A pending path that has some text becomes the path of the analysis. -/
theorem settle_of_path {path : String} (named : progress.pending = .path path)
    (filled : path ≠ "") :
    progress.settle = .ok { progress with
      given := { progress.given with path := some path }
      pending := .nothing } := by
  -- A path that has some text passes, and moves from what is pending to what is given.
  obtain ⟨given, pending, hasPath⟩ := progress
  subst named
  simp only [settle, readPath_of_ne filled]
  rfl

/-- Where nothing is pending an option takes its attached value at once. -/
theorem take_assigned (idle : progress.pending = .nothing) (setting : Setting) (value : String)
    {given : Given} (taken : progress.given.set setting value = .ok given) :
    progress.take analyzeGrammar (assigned setting value) = .ok { progress with given } := by
  -- The value is attached, so the option waits for no further word.
  rw [takeLong_assigned, set, settle_of_nothing idle]
  change (progress.given.set setting value).bind _ = _
  rw [taken]
  rfl

/-- Where nothing is pending a flag is raised at once. -/
theorem raise_of_nothing (idle : progress.pending = .nothing) (flag : Flag) {given : Given}
    (raised : progress.given.raise flag = .ok given) :
    progress.raise flag = .ok { progress with given } := by
  -- Judging what is pending changes nothing here.
  rw [raise, settle_of_nothing idle]
  change (progress.given.raise flag).bind _ = _
  rw [raised]
  rfl

/-- Where nothing is pending a flag that is written as a letter is raised at once. -/
theorem take_letter (idle : progress.pending = .nothing) {given : Given}
    (raised : progress.given.raise .quiet = .ok given) :
    progress.take analyzeGrammar "-q" = .ok { progress with given } := by
  -- A single letter is looked up as a flag, and raised like one.
  change (progress.raise .quiet).bind _ = _
  rw [raise_of_nothing idle .quiet raised]
  rfl

/-- Where nothing is pending a wish for more log output is counted at once. -/
theorem raise_verbose (idle : progress.pending = .nothing) :
    progress.raise .verbose = .ok { progress with given := progress.given.wish 1 } :=
  -- A wish may be repeated, so raising it never fails.
  raise_of_nothing idle .verbose rfl

/-- Letters that are written together ask for more log output as often as there are letters. -/
theorem takeShort_letters (idle : progress.pending = .nothing) (others : Nat) :
    progress.takeShort analyzeGrammar (List.replicate (others + 1) 'v') =
      .ok { progress with given := progress.given.wish (others + 1) } := by
  -- Each letter is one wish, and wishes are counted together.
  induction others generalizing progress with
  | zero =>
    change (progress.raise .verbose).bind _ = _
    rw [raise_verbose idle]
    rfl
  | succ others ih =>
    change (progress.raise .verbose).bind _ = _
    rw [raise_verbose idle, ← Given.wish_wish]
    exact ih idle

end Progress

/-- What may be given once and is given by the next word was not given before. -/
theorem eq_none_of_slot {α : Type} {slot target : Option α} {value : α} {rest : List α}
    (told : slot.toList ++ value :: rest = target.toList) :
    slot = none ∧ target = some value ∧ rest = [] := by
  -- A slot holds one value at most, which here is the one of the next word.
  cases slot with
  | none =>
    cases target with
    | none => cases told
    | some wanted => simpa [eq_comm] using told
  | some given => cases target <;> simp at told

/-- A flag that may be raised once and is raised by the next word was not raised before. -/
theorem eq_false_of_switch {flag target : Bool} {rest : Nat}
    (told : flag.toNat + (rest + 1) = target.toNat) :
    flag = false ∧ true.toNat + rest = target.toNat := by
  -- A switch counts once at most, and the next word is that once.
  cases flag <;> cases target <;> simp_all

/-- Every value in what is given can be read. -/
structure Given.Fits (given : Given) : Prop where
  output : given.output ≠ some ""
  config : given.config ≠ some ""
  jobs : ∀ count ∈ given.jobs, count < wordBound

/-- The words still to come turn what is given into a target, and give nothing twice. -/
structure Completes (given : Given) (words : List Word) (target : Given) : Prop where
  path : given.path = target.path
  output : given.output.toList ++ words.filterMap Word.output? = target.output.toList
  format : given.format.toList ++ words.filterMap Word.format? = target.format.toList
  config : given.config.toList ++ words.filterMap Word.config? = target.config.toList
  jobs : given.jobs.toList ++ words.filterMap Word.jobs? = target.jobs.toList
  quiet : given.quiet.toNat + words.countP Word.isQuiet = target.quiet.toNat
  plain : given.plain.toNat + words.count .plain = target.plain.toNat
  noParallel : given.noParallel.toNat + words.count .noParallel = target.noParallel.toNat
  force : given.force = target.force
  bounded : given.verbosity ≤ maxVerbosity
  verbosity :
    min (given.verbosity + (words.filterMap Word.wishes?).sum) maxVerbosity = target.verbosity

/-- Without further words the target is what is given. -/
theorem Completes.eq_of_nil {given target : Given} (completes : Completes given [] target) :
    given = target := by
  -- Each field told by no further words is the field of the target.
  have slot : ∀ {α : Type} {one other : Option α}, one.toList ++ [] = other.toList →
      one = other := by
    intro α one other same
    cases one <;> cases other <;> simp_all
  have switch : ∀ {one other : Bool}, one.toNat + 0 = other.toNat → one = other := by
    intro one other same
    cases one <;> cases other <;> simp_all
  have count : given.verbosity = target.verbosity := by
    rw [← completes.verbosity]
    exact (Nat.min_eq_left completes.bounded).symm
  obtain ⟨path, output, format, config, jobs, quiet, plain, noParallel, force, _, _⟩ := completes
  cases given
  cases target
  simp only [Given.mk.injEq]
  exact ⟨path, slot output, slot format, slot config, slot jobs, switch quiet, switch plain,
    switch noParallel, force, count⟩

variable {progress : Progress} {words : List Word} {target : Given}

/-- A word is taken where nothing is pending, and brings what is given closer to the target. -/
theorem take_word (idle : progress.pending = .nothing) (fits : target.Fits) {word : Word}
    (completes : Completes progress.given (word :: words) target) :
    ∃ given, progress.take analyzeGrammar word.text = .ok { progress with given } ∧
      Completes given words target := by
  -- Every kind of word has its own field, and leaves the others as they were.
  cases word with
  -- Words with a value need their slot free, which a target with one value grants.
  | output path =>
    obtain ⟨free, wanted, last⟩ := eq_none_of_slot completes.output
    have filled : path ≠ "" := fun empty => fits.output (wanted.trans (congrArg some empty))
    refine ⟨{ progress.given with output := some path }, ?_,
      { completes with output := by simp [wanted, last] }⟩
    apply Progress.take_assigned idle
    simp only [Given.set, free, setOnce, readPath_of_ne filled]
    rfl
  | format format =>
    obtain ⟨free, wanted, last⟩ := eq_none_of_slot completes.format
    refine ⟨{ progress.given with format := some format }, ?_,
      { completes with format := by simp [wanted, last] }⟩
    apply Progress.take_assigned idle
    simp only [Given.set, free, setOnce, readFormat_formatName]
    rfl
  | config path =>
    obtain ⟨free, wanted, last⟩ := eq_none_of_slot completes.config
    have filled : path ≠ "" := fun empty => fits.config (wanted.trans (congrArg some empty))
    refine ⟨{ progress.given with config := some path }, ?_,
      { completes with config := by simp [wanted, last] }⟩
    apply Progress.take_assigned idle
    simp only [Given.set, free, setOnce, readPath_of_ne filled]
    rfl
  | jobs count =>
    obtain ⟨free, wanted, last⟩ := eq_none_of_slot completes.jobs
    refine ⟨{ progress.given with jobs := some count }, ?_,
      { completes with jobs := by simp [wanted, last] }⟩
    apply Progress.take_assigned idle
    simp only [Given.set, free, setOnce, readNumber_repr (fits.jobs count wanted)]
    rfl
  -- A flag counts as raised once, so it was not raised before.
  | quiet =>
    have told := completes.quiet
    rw [List.countP_cons_of_pos rfl] at told
    obtain ⟨free, others⟩ := eq_false_of_switch told
    refine ⟨{ progress.given with quiet := true }, ?_, { completes with quiet := others }⟩
    apply Progress.raise_of_nothing idle .quiet
    simp only [Given.raise, free]
    rfl
  | quietLetter =>
    have told := completes.quiet
    rw [List.countP_cons_of_pos rfl] at told
    obtain ⟨free, others⟩ := eq_false_of_switch told
    refine ⟨{ progress.given with quiet := true }, ?_, { completes with quiet := others }⟩
    apply Progress.take_letter idle
    simp only [Given.raise, free]
    rfl
  | plain =>
    have told := completes.plain
    rw [List.count_cons_self] at told
    obtain ⟨free, others⟩ := eq_false_of_switch told
    refine ⟨{ progress.given with plain := true }, ?_, { completes with plain := others }⟩
    apply Progress.raise_of_nothing idle .plain
    simp only [Given.raise, free]
    rfl
  | noParallel =>
    have told := completes.noParallel
    rw [List.count_cons_self] at told
    obtain ⟨free, others⟩ := eq_false_of_switch told
    refine ⟨{ progress.given with noParallel := true }, ?_, { completes with noParallel := others }⟩
    apply Progress.raise_of_nothing idle .noParallel
    simp only [Given.raise, free]
    rfl
  -- A wish for more output may follow others, and only adds to them.
  | verbose =>
    refine ⟨progress.given.wish 1, Progress.raise_verbose idle, ?_⟩
    exact { completes with
      bounded := Nat.min_le_right _ _
      verbosity := (Given.min_wish _ _ _).trans completes.verbosity }
  | verboseLetters others =>
    refine ⟨progress.given.wish (others + 1), ?_, ?_⟩
    · rw [Word.text, Progress.take, String.toList_ofList]
      exact Progress.takeShort_letters idle others
    · exact { completes with
        bounded := Nat.min_le_right _ _
        verbosity := (Given.min_wish _ _ _).trans completes.verbosity }

/-- No word stands for the dashes behind which options end. -/
theorem text_ne_dashes (word : Word) : word.text ≠ "--" := by
  -- Words are longer than two dashes, or are other texts.
  have longer : ∀ setting value, assigned setting value ≠ "--" := by
    intro setting value same
    have letters := congrArg String.toList same
    rw [toList_assigned] at letters
    simp at letters
  cases word with
  | output path => exact longer .output path
  | format format => exact longer .format _
  | config path => exact longer .config path
  | jobs count => exact longer .jobs _
  | verboseLetters others =>
    intro same
    have letters := congrArg String.toList same
    simp [Word.text, List.replicate_succ] at letters
  | _ => decide

/-- Behind all words the path completes what they give. -/
theorem takeAll_words (idle : progress.pending = .nothing) (noPath : progress.hasPath = false)
    (fits : target.Fits) {path : String} (filled : path ≠ "")
    (completes : Completes progress.given words target) :
    takeAll analyzeGrammar progress (words.map Word.text ++ ["--", path]) =
      .ok { target with path := some path } := by
  -- Each word brings what is given closer to the target, until only the path is left.
  induction words generalizing progress with
  | nil =>
    obtain ⟨given, pending, hasPath⟩ := progress
    subst idle noPath
    rw [← completes.eq_of_nil]
    rw [List.map_nil, List.nil_append, takeAll, if_pos rfl]
    change (Progress.settle ⟨given, .path path, true⟩).bind _ = _
    rw [Progress.settle_of_path rfl filled]
    rfl
  | cons word words ih =>
    obtain ⟨given, taken, closer⟩ := take_word idle fits completes
    rw [List.map_cons, List.cons_append, takeAll, if_neg (text_ne_dashes word), taken]
    exact ih idle noPath closer

namespace Writes

variable {options : AnalyzeOptions} {ordered : List Word}

/-- What is told at most once is told by the same value in any order. -/
theorem eq_of_perm_toList {α : Type} {values : List α} {slot : Option α}
    (permuted : values.Perm slot.toList) : values = slot.toList := by
  -- A list of one value at most has no second order.
  cases slot with
  | none => exact List.perm_nil.mp permuted
  | some value => exact List.perm_singleton.mp permuted

/-- The order of words does not count. -/
theorem perm (written : Writes words options) (permuted : ordered.Perm words) :
    Writes ordered options where
  -- Each field is told by the words of its kind, whose number and values no order changes.
  output := eq_of_perm_toList ((permuted.filterMap _).trans (.of_eq written.output))
  format := by
    have told := permuted.filterMap Word.format?
    obtain given | ⟨left, standard⟩ := written.format
    · rw [given] at told
      exact .inl (List.perm_singleton.mp told)
    · rw [left] at told
      exact .inr ⟨List.perm_nil.mp told, standard⟩
  config := eq_of_perm_toList ((permuted.filterMap _).trans (.of_eq written.config))
  jobs := by
    have told := permuted.filterMap Word.jobs?
    obtain given | ⟨left, standard⟩ := written.jobs
    · rw [given] at told
      exact .inl (List.perm_singleton.mp told)
    · rw [left] at told
      exact .inr ⟨List.perm_nil.mp told, standard⟩
  quiet := (permuted.countP_eq _).trans written.quiet
  plain := (permuted.count_eq _).trans written.plain
  noParallel := (permuted.count_eq _).trans written.noParallel
  verbosity := ((permuted.filterMap _).sum_eq).trans written.verbosity

/-- What may be left out is given once, or has its default value. -/
theorem exists_slot {α : Type} {values : List α} {value standard : α}
    (told : values = [value] ∨ values = [] ∧ value = standard) :
    ∃ slot : Option α, values = slot.toList ∧ slot.getD standard = value := by
  -- The value is written, or left out where it is the default.
  obtain rfl | ⟨rfl, rfl⟩ := told
  · exact ⟨some value, rfl, rfl⟩
  · exact ⟨none, rfl, rfl⟩

end Writes

/-- Arguments that write an analysis in any order are parsed into that analysis, with the wishes for
log output counted up to the greatest number. Paths need some text, and may be any text that has
some. -/
theorem parse_writtenArguments {options : AnalyzeOptions} {ordered : List Word}
    (path : options.path ≠ "") (output : options.output ≠ some "")
    (config : options.config ≠ some "") (jobs : options.jobs < wordBound)
    (written : Writes words options) (permuted : ordered.Perm words) :
    parse (writtenArguments ordered options.path) =
      .ok (.analyze { options with verbosity := min options.verbosity 255 }) := by
  have writes := written.perm permuted
  obtain ⟨format, formats, formatValue⟩ := Writes.exists_slot writes.format
  obtain ⟨count, counts, countValue⟩ := Writes.exists_slot writes.jobs
  let target : Given :=
    { output := options.output
      format
      config := options.config
      jobs := count
      quiet := options.quiet
      plain := options.plain
      noParallel := options.noParallel
      verbosity := min options.verbosity 255 }
  have fits : target.Fits := by
    refine ⟨output, config, fun number told => ?_⟩
    cases told
    have value : number = options.jobs := countValue
    rwa [value]
  -- Nothing is given before the first word.
  have completes : Completes {} ordered target :=
    { path := rfl
      output := writes.output
      format := formats
      config := writes.config
      jobs := counts
      quiet := (Nat.zero_add _).trans writes.quiet
      plain := (Nat.zero_add _).trans writes.plain
      noParallel := (Nat.zero_add _).trans writes.noParallel
      force := rfl
      bounded := Nat.zero_le _
      verbosity := by rw [writes.verbosity, Nat.zero_add]; rfl }
  have taken : takeAll analyzeGrammar {} (ordered.map Word.text ++ ["--", options.path]) = _ :=
    takeAll_words rfl rfl fits path completes
  change (takeAll analyzeGrammar {} (ordered.map Word.text ++ ["--", options.path])).bind _ = _
  rw [taken]
  change Except.ok (Command.analyze (Given.analyzeOptions { target with path := options.path })) = _
  simp only [Given.analyzeOptions, target, Option.getD_some, formatValue, countValue]

/-- Values that look like options, and the dashes themselves as the path. -/
def dashedOptions : AnalyzeOptions where
  path := "--"
  output := some "-o=x"
  config := some "--help"
  quiet := true
  verbosity := 4
  plain := true
  jobs := wordBound - 1

/-- Those options in the order of their declaration, the default format left out. -/
def dashedWords : List Word :=
  [.output "-o=x", .config "--help", .quietLetter, .verboseLetters 1, .verbose, .verboseLetters 0,
    .plain, .jobs (wordBound - 1)]

/-- Values that look like options are told apart from them, in another order, too. -/
theorem parse_writtenArguments_dashed :
    Writes dashedWords dashedOptions ∧
    parse ["analyze", "--jobs=18446744073709551615", "--plain", "-v", "--verbose", "-vv", "-q",
      "--config=--help", "--output=-o=x", "--", "--"] = .ok (.analyze dashedOptions) := by
  -- The words come in reverse, and the path and two of the values begin with dashes.
  have written : Writes dashedWords dashedOptions :=
    { output := rfl
      format := .inr ⟨rfl, rfl⟩
      config := rfl
      jobs := .inl rfl
      quiet := rfl
      plain := rfl
      noParallel := rfl
      verbosity := rfl }
  have texts : writtenArguments dashedWords.reverse "--" =
      ["analyze", "--jobs=18446744073709551615", "--plain", "-v", "--verbose", "-vv", "-q",
        "--config=--help", "--output=-o=x", "--", "--"] := by
    decide
  have parsed := parse_writtenArguments (by decide) (by decide) (by decide) (by decide) written
    (List.reverse_perm dashedWords)
  change parse (writtenArguments dashedWords.reverse "--") = _ at parsed
  rw [texts] at parsed
  exact ⟨written, parsed⟩

end Stocktake.CommandLine
