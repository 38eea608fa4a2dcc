import Stocktake.Toml.Outline

/-! The values that are written in a document are made of scalars, which have no parts. -/

namespace Stocktake.Toml

/-- A scalar is no array and no table. -/
def Value.IsScalar : Value → Prop
  | .array _ => False
  | .table _ => False
  | _ => True

/-- A number is a scalar whether or not it can be held. -/
theorem isScalar_ofDigits (negative : Bool) (base : Nat) (digits : List Char) :
    (Value.ofDigits negative base digits).IsScalar := by
  -- It is an integer when it is in range, and unreadable otherwise.
  simp only [Value.ofDigits]
  split
  · trivial
  · generalize (if negative = true then _ else _ : Int) = n
    split <;> trivial

/-- Behind its three parts, a float is read or has no room. -/
private theorem isScalar_of_float? {text : List Char} {value : Value}
    (read : float? text = some value) : value.IsScalar := by
  -- Either way the value is a float or unreadable.
  simp only [float?, Option.bind_eq_bind, Option.bind_eq_some_iff] at read
  obtain ⟨_, _, _, _, _, _, found⟩ := read
  split at found
  · cases found
  · split at found <;> cases found <;> trivial

/-- The character behind the first digits decides on an integer, a date or a float. -/
private theorem isScalar_of_decimal? {negative : Bool} {body text : List Char} {value : Value}
    (read : decimal? negative body text = some value) : value.IsScalar := by
  -- Each of the three is a scalar.
  simp only [decimal?] at read
  split at read
  · split at read
    · cases read
    · exact Option.some.inj read ▸ isScalar_ofDigits _ _ _
  · split at read
    · split at read
      · cases read
        trivial
      · cases read
    · split at read
      · exact isScalar_of_float? read
      · split at read
        · exact Option.some.inj read ▸ isScalar_ofDigits _ _ _
        · cases read

/-- A value with a sign in front is a scalar. -/
private theorem isScalar_of_signedValue? {text : List Char} {value : Value}
    (read : signedValue? text = some value) : value.IsScalar := by
  -- Behind the sign stand a special float or digits.
  simp only [signedValue?] at read
  split at read
  · cases read
    trivial
  · split at read
    · exact isScalar_of_decimal? read
    · cases read

/-- A bare text spells a scalar. -/
theorem isScalar_of_bareValue? {text : List Char} {value : Value}
    (read : bareValue? text = some value) : value.IsScalar := by
  -- A truth value, an integer of another base, or what begins with a sign or a digit.
  unfold bareValue? at read
  split at read
  · cases read
    trivial
  · split at read
    · cases read
      trivial
    · split at read
      · split at read
        · rw [based?] at read
          split at read
          · exact Option.some.inj read ▸ isScalar_ofDigits _ _ _
          · cases read
        · exact isScalar_of_signedValue? read
      · exact isScalar_of_signedValue? read

mutual

/-- What is written without parts is a scalar, also inside of arrays and tables. -/
def Written.HoldsScalars : Written → Prop
  | .scalar value => ∀ found ∈ value, found.IsScalar
  | .array items => HoldScalars items
  | .table assignments => AssignmentsHoldScalars assignments

/-- All values hold scalars. -/
def HoldScalars : List Written → Prop
  | [] => True
  | value :: values => value.HoldsScalars ∧ HoldScalars values

/-- All values of assignments hold scalars. -/
def AssignmentsHoldScalars : List (Name × Written) → Prop
  | [] => True
  | (_, value) :: assignments => value.HoldsScalars ∧ AssignmentsHoldScalars assignments

end

attribute [simp] Written.HoldsScalars HoldScalars

/-- Assignments hold scalars when their values do. -/
@[simp] theorem assignmentsHoldScalars_iff {assignments : List (Name × Written)} :
    AssignmentsHoldScalars assignments ↔ HoldScalars (assignments.map Prod.snd) := by
  -- Names of assignments do not count.
  induction assignments with
  | nil => rfl
  | cons assignment assignments ih => exact and_congr_right fun _ => ih

/-- Values hold scalars when each of them does. -/
theorem holdScalars_iff {values : List Written} :
    HoldScalars values ↔ ∀ value ∈ values, value.HoldsScalars := by
  -- The condition on a list is one for each value.
  induction values with
  | nil => simp
  | cons value values ih => simp [ih]

/-- Two lists of values hold scalars when each one does. -/
@[simp] theorem holdScalars_append {values more : List Written} :
    HoldScalars (values ++ more) ↔ HoldScalars values ∧ HoldScalars more := by
  -- The values of both lists are those of one of them.
  simp only [holdScalars_iff, List.forall_mem_append]

/-- Values hold scalars in either direction. -/
@[simp] theorem holdScalars_reverse {values : List Written} :
    HoldScalars values.reverse ↔ HoldScalars values := by
  -- Both lists have the same values.
  simp only [holdScalars_iff, List.mem_reverse]

/-- The finished values of an open container. -/
@[simp] def Frame.values : Frame → List Written
  | .array items => items
  | .table assignments _ => assignments.map Prod.snd

/-- The finished values around a value. -/
def Site.values (site : Site) : List Written :=
  site.frames.flatMap Frame.values

/-- The finished values around a name. -/
@[simp] def Owner.values : Owner → List Written
  | .member site assignments => assignments.map Prod.snd ++ site.values
  | _ => []

/-- The finished values on the line of a place. -/
@[simp] def Place.values : Place → List Written
  | .beforePart owner _ => owner.values
  | .behindPart owner _ => owner.values
  | .beforeMember site assignments => assignments.map Prod.snd ++ site.values
  | .behindMember site assignments _ => assignments.map Prod.snd ++ site.values
  | .beforeValue site => site.values
  | .bare site _ _ => site.values
  | .behindValue site value => value :: site.values
  | _ => []

/-- The values of a line. -/
@[simp] def Line.values : Line → List Written
  | .assignment _ value => [value]
  | _ => []

/-- All values that have been read of a document hold scalars. -/
def Outline.HoldsScalars (outline : Outline) : Prop :=
  HoldScalars (outline.lines.flatMap Line.values) ∧ HoldScalars outline.place.values

namespace Outline

variable {lines : List Line} {site : Site} {value : Written} {token : Token} {next : Outline}
  {assignments : List (Name × Written)} {owner : Owner} {parts name : Name}

section

variable (before : HoldScalars (lines.flatMap Line.values))

include before

/-- A place keeps the scalars of the lines before it, and its own. -/
private theorem holdsScalars_of_place {place : Place} (taken : some ⟨lines, place⟩ = some next)
    (around : HoldScalars place.values) : next.HoldsScalars :=
  -- The lines are the same as before.
  Option.some.inj taken ▸ ⟨before, around⟩

/-- A further assignment keeps the scalars of the lines, and its own value. -/
private theorem holdsScalars_of_assignment (holds : value.HoldsScalars) {place : Place}
    (taken : some ⟨.assignment name value :: lines, place⟩ = some next)
    (bare : HoldScalars place.values) : next.HoldsScalars :=
  -- The assignment is the last one of the lines.
  Option.some.inj taken ▸ ⟨⟨holds, before⟩, bare⟩

/-- Inside a container the value is behind those that were finished before it. -/
private theorem holdsScalars_of_afterValue (around : HoldScalars site.values)
    (holds : value.HoldsScalars) (taken : afterValue lines site value token = some next) :
    next.HoldsScalars := by
  -- A value goes into what is open around it, or makes a line of its own.
  obtain ⟨label, frames⟩ := site
  simp only [afterValue] at taken
  split at taken
  · exact holdsScalars_of_place before taken ⟨holds, around⟩
  · exact holdsScalars_of_assignment before holds taken trivial
  · exact holdsScalars_of_assignment before holds taken trivial
  · cases taken
  · exact holdsScalars_of_place before taken ⟨holds, around⟩
  · exact holdsScalars_of_place before taken ⟨holds, around⟩
  · exact holdsScalars_of_place before taken (by simpa [Site.values, holds] using around)
  · exact holdsScalars_of_place before taken
      (by simpa [Site.values, holds, and_comm, and_assoc] using around)
  · exact holdsScalars_of_place before taken (by simpa [Site.values, holds] using around)
  · exact holdsScalars_of_place before taken
      (by simpa [Site.values, holds, and_comm, and_assoc] using around)
  · cases taken

/-- A token where a value is missing leaves scalars. -/
private theorem holdsScalars_of_withoutValue (around : HoldScalars site.values)
    (taken : withoutValue lines site token = some next) : next.HoldsScalars := by
  -- A missing value is no scalar that could be wrong.
  obtain ⟨label, frames⟩ := site
  have missing : (Written.scalar none).HoldsScalars := nofun
  simp only [withoutValue] at taken
  split at taken
  · exact holdsScalars_of_afterValue before around missing taken
  · exact holdsScalars_of_afterValue before around missing taken
  · exact holdsScalars_of_place before taken around
  · exact holdsScalars_of_place before taken around
  · exact holdsScalars_of_place before taken (by simpa [Site.values] using around)
  · exact holdsScalars_of_afterValue before around missing taken
  · cases taken

/-- Where a value may come there are still scalars. -/
private theorem holdsScalars_of_atValue (around : HoldScalars site.values)
    (taken : atValue lines site token = some next) : next.HoldsScalars := by
  -- What a token begins is a bare word, a quoted text or an open container.
  simp only [atValue] at taken
  split at taken
  · exact holdsScalars_of_place before taken around
  · exact holdsScalars_of_place before taken around
  · exact holdsScalars_of_place before taken around
  · -- A quoted text is a scalar.
    refine holdsScalars_of_place before taken ⟨fun found quoted => ?_, around⟩
    obtain ⟨content, _, rfl⟩ := Option.map_eq_some_iff.mp quoted
    trivial
  · split at taken
    · exact holdsScalars_of_place before taken (by simpa [Site.values] using around)
    · cases taken
  · split at taken
    · exact holdsScalars_of_place before taken (by simpa using around)
    · cases taken
  · exact holdsScalars_of_withoutValue before around taken

/-- Behind a bare word there are still scalars. -/
private theorem holdsScalars_of_afterBare (around : HoldScalars site.values)
    {text blanks : List Char} (taken : afterBare lines site text blanks token = some next) :
    next.HoldsScalars := by
  -- The word goes on, or is read as a scalar.
  simp only [afterBare] at taken
  split at taken
  · exact holdsScalars_of_place before taken around
  · exact holdsScalars_of_place before taken around
  · exact holdsScalars_of_place before taken around
  · have scalar : (Written.scalar (bareValue? text.reverse)).HoldsScalars :=
      fun found spelled => isScalar_of_bareValue? spelled
    exact holdsScalars_of_afterValue before around scalar taken

/-- The name opens a frame, in which the assignments before it are finished. -/
private theorem holdsScalars_of_afterMember
    (around : HoldScalars (assignments.map Prod.snd ++ site.values))
    (taken : afterMember lines site assignments name token = some next) : next.HoldsScalars := by
  -- The token ends the name, or goes on with it.
  have inside : HoldScalars
      (Site.values { site with frames := .table assignments name :: site.frames }) := by
    simpa [Site.values] using around
  simp only [afterMember] at taken
  split at taken
  · exact holdsScalars_of_place before taken inside
  · exact holdsScalars_of_afterValue before inside (by simp) taken
  · exact holdsScalars_of_place before taken around
  · exact holdsScalars_of_place before taken around
  · exact holdsScalars_of_place before taken around
  · cases taken

/-- A header has no values. -/
private theorem holdsScalars_closeHeader (repeats : Bool) (name : Name) :
    (closeHeader lines repeats name).HoldsScalars := by
  -- It opens a table or one more of an array.
  cases repeats <;> exact ⟨before, trivial⟩

/-- Behind a name there are still scalars. -/
private theorem holdsScalars_of_afterName (around : HoldScalars owner.values)
    (taken : afterName lines owner name token = some next) : next.HoldsScalars := by
  -- What the name belongs to decides which tokens may follow.
  simp only [afterName] at taken
  split at taken
  · exact holdsScalars_of_place before taken trivial
  · exact Option.some.inj taken ▸ holdsScalars_closeHeader before _ _
  · exact holdsScalars_of_afterMember before around taken
  · cases taken

/-- Behind a gap there are still scalars. -/
private theorem holdsScalars_of_afterGap (around : HoldScalars owner.values)
    (taken : afterGap lines owner name token = some next) : next.HoldsScalars := by
  -- Only a header may end here without its bracket.
  simp only [afterGap] at taken
  split at taken
  · exact @holdsScalars_of_place (.header _ name :: lines) next before _ taken trivial
  · exact Option.some.inj taken ▸ holdsScalars_closeHeader before _ _
  · exact @holdsScalars_of_place (.header _ name :: lines) next before _ taken trivial
  · exact holdsScalars_of_afterName before around taken

/-- At a part of a name there are still scalars. -/
private theorem holdsScalars_of_atPart (taken : atPart lines owner parts token = some next)
    (around : HoldScalars owner.values) : next.HoldsScalars := by
  -- A part is bare or quoted, and holds no value either way.
  simp only [atPart] at taken
  split at taken
  · exact holdsScalars_of_place before taken around
  · exact holdsScalars_of_place before taken around
  · exact holdsScalars_of_place before taken around
  · exact holdsScalars_of_place before taken around
  · exact holdsScalars_of_afterGap before around taken

/-- Behind a part of a name there are still scalars. -/
private theorem holdsScalars_of_afterPart (around : HoldScalars owner.values)
    (taken : afterPart lines owner parts token = some next) : next.HoldsScalars := by
  -- Another part follows, or the name ends.
  simp only [afterPart] at taken
  split at taken
  · exact holdsScalars_of_place before taken around
  · exact holdsScalars_of_place before taken around
  · exact holdsScalars_of_afterName before around taken

/-- At the start of a line there are still scalars. -/
private theorem holdsScalars_of_atLineStart (taken : atLineStart lines token = some next) :
    next.HoldsScalars := by
  -- Only a name or a header opens something, and no value is held by either.
  simp only [atLineStart] at taken
  split at taken
  · exact holdsScalars_of_place before taken trivial
  · exact holdsScalars_of_place before taken trivial
  · exact holdsScalars_of_place before taken trivial
  · exact holdsScalars_of_place before taken trivial
  · exact holdsScalars_of_atPart before taken trivial

/-- At a member of a table there are still scalars. -/
private theorem holdsScalars_of_atMember
    (around : HoldScalars (assignments.map Prod.snd ++ site.values))
    (taken : atMember lines site assignments token = some next) : next.HoldsScalars := by
  -- A name opens a member, and other tokens hold no value.
  simp only [atMember] at taken
  split at taken
  · exact holdsScalars_of_place before taken around
  · exact holdsScalars_of_place before taken around
  · exact holdsScalars_of_place before taken around
  · exact holdsScalars_of_place before taken (by simpa using around)
  · exact holdsScalars_of_atPart before taken around

end

/-- No token makes anything but scalars out of what has no parts. -/
theorem holdsScalars_of_step {outline : Outline} (holds : outline.HoldsScalars)
    (taken : outline.step token = some next) : next.HoldsScalars := by
  obtain ⟨lines, place⟩ := outline
  obtain ⟨before, around⟩ := holds
  -- One case for each place at which a token may stand.
  simp only [step] at taken
  split at taken
  · exact holdsScalars_of_atLineStart before taken
  · exact holdsScalars_of_place before taken trivial
  · exact holdsScalars_of_atPart before taken trivial
  · exact holdsScalars_of_atPart before taken around
  · exact holdsScalars_of_afterPart before around taken
  · exact holdsScalars_of_place before taken trivial
  · exact holdsScalars_of_atMember before around taken
  · exact holdsScalars_of_afterMember before around taken
  · exact holdsScalars_of_atValue before around taken
  · exact holdsScalars_of_afterBare before around taken
  · exact holdsScalars_of_afterValue before around.2 around.1 taken
  · exact holdsScalars_of_place before taken trivial
  · exact holdsScalars_of_place before taken trivial
  · exact holdsScalars_of_place before taken trivial
  · exact holdsScalars_of_place before taken trivial
  · exact holdsScalars_of_place before taken trivial
  · cases taken

/-- Whatever tokens are read, nothing but scalars has no parts. -/
theorem holdsScalars_of_foldlM {tokens : List Token} {outline : Outline}
    (holds : outline.HoldsScalars) (taken : tokens.foldlM step outline = some next) :
    next.HoldsScalars := by
  -- Each token keeps what the outline before it holds.
  induction tokens generalizing outline with
  | nil =>
    cases taken
    exact holds
  | cons token tokens ih =>
    rw [List.foldlM_cons] at taken
    obtain ⟨between, first, others⟩ := Option.bind_eq_some_iff.mp taken
    exact ih (holdsScalars_of_step holds first) others

end Outline

/-- The values that are written on the lines of a document hold scalars. -/
theorem holdScalars_of_linesOf? {tokens : List Token} {lines : List Line}
    (formed : linesOf? tokens = some lines) : HoldScalars (lines.flatMap Line.values) := by
  obtain ⟨outline, read, ended⟩ := Option.bind_eq_some_iff.mp formed
  have start : Outline.HoldsScalars ⟨[], .lineStart⟩ := ⟨trivial, trivial⟩
  have holds : outline.HoldsScalars := Outline.holdsScalars_of_foldlM start read
  -- The end of the document is one more step, which leaves the lines in reverse.
  rw [Outline.lines?] at ended
  split at ended
  · rename_i backwards last
    obtain ⟨all, _⟩ := Outline.holdsScalars_of_step holds last
    rw [← Option.some.inj ended]
    simpa [holdScalars_iff] using all
  · cases ended

end Stocktake.Toml
