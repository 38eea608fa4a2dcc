import Stocktake.Toml.Scalar
import Stocktake.Toml.Token

/-! The outline of a document: its lines as they are written, malformed words included. -/

namespace Stocktake.Toml

/-- A dotted name as it is written; a part that is missing or malformed holds none. -/
abbrev Name := List (Option String)

/-- A value as it is written; a word that is missing or malformed holds none. -/
inductive Written
  | scalar (value : Option Value)
  | array (items : List Written)
  | table (assignments : List (Name × Written))

/-- A line that says something. -/
inductive Line
  /-- A header of a table, or of one more table of an array. -/
  | header (repeats : Bool) (name : Name)
  | assignment (name : Name) (value : Written)

/-- An open container with what is finished of it, the last part first. -/
inductive Frame
  | array (items : List Written)
  /-- A table whose next assignment has its name already. -/
  | table (assignments : List (Name × Written)) (name : Name)

/-- Where a value stands: behind a name at the start of its line, inside containers. -/
structure Site where
  name : Name
  frames : List Frame

/-- What a name is read for. -/
inductive Owner
  /-- An assignment on a line of its own. -/
  | line
  | header (repeats : Bool)
  /-- An assignment in a table, behind those that are finished. -/
  | member (site : Site) (assignments : List (Name × Written))

/-- What has been read last, and so what may come next. -/
inductive Place
  /-- Nothing but blanks on this line. -/
  | lineStart
  /-- The bracket that begins a header. -/
  | bracket
  /-- What stands before a part of a name; the parts before it are in reverse. -/
  | beforePart (owner : Owner) (parts : Name)
  /-- A part of a name; all parts are in reverse. -/
  | behindPart (owner : Owner) (parts : Name)
  /-- The first of the two brackets that close a header. -/
  | closingBracket
  /-- What stands before an assignment in a table. -/
  | beforeMember (site : Site) (assignments : List (Name × Written))
  /-- The name of an assignment in a table. -/
  | behindMember (site : Site) (assignments : List (Name × Written)) (name : Name)
  /-- What stands before a value. -/
  | beforeValue (site : Site)
  /-- A bare text in reverse, and the blanks behind it. -/
  | bare (site : Site) (text blanks : List Char)
  /-- A complete value. -/
  | behindValue (site : Site) (value : Written)
  /-- All that its line has to say. -/
  | lineEnd
  /-- A header without a name, whose line is passed over. -/
  | passedOver

/-- An outline that is being read: the lines so far, the last one first, and the place reached. -/
structure Outline where
  lines : List Line
  place : Place

/-- How deep arrays and tables may nest, and how many parts a name may have. -/
def nestingLimit : Nat :=
  80

/-- A character of a name without quotes. -/
def isBareName (c : Char) : Bool :=
  c.isAlphanum || c == '_' || c == '-'

/-- The part of a name that a word spells. -/
def wordPart (word : List Char) : Option String :=
  if word.all isBareName then some (.ofList word) else none

/-- The part of a name that a quoted text spells; it stays on its line. -/
def quotedPart (text : QuotedText) : Option String :=
  if text.multiline then none else text.content

namespace Outline

/-- Goes on behind a complete value. -/
def afterValue (lines : List Line) (site : Site) (value : Written) (token : Token) :
    Option Outline :=
  let stays := ⟨lines, .behindValue site value⟩
  match site.frames, token with
  | _, .blank _ => some stays
  | [], .newline => some ⟨.assignment site.name value :: lines, .lineStart⟩
  | [], .comment => some ⟨.assignment site.name value :: lines, .lineEnd⟩
  | [], _ => none
  | _, .newline => some stays
  | _, .comment => some stays
  | .array items :: outer, .comma =>
    some ⟨lines, .beforeValue { site with frames := .array (value :: items) :: outer }⟩
  | .array items :: outer, .closeArray =>
    some ⟨lines, .behindValue { site with frames := outer } (.array (value :: items).reverse)⟩
  | .table assignments name :: outer, .comma =>
    some ⟨lines, .beforeMember { site with frames := outer } ((name, value) :: assignments)⟩
  | .table assignments name :: outer, .closeTable =>
    let assignments := ((name, value) :: assignments).reverse
    some ⟨lines, .behindValue { site with frames := outer } (.table assignments)⟩
  | _, _ => none

/-- Takes what stands for no value where one may come: it may be missing before an end. -/
def withoutValue (lines : List Line) (site : Site) (token : Token) : Option Outline :=
  let stays := ⟨lines, .beforeValue site⟩
  match site.frames, token with
  | [], .newline => afterValue lines site (.scalar none) token
  | [], .comment => afterValue lines site (.scalar none) token
  | _, .newline => some stays
  | _, .comment => some stays
  | .array items :: outer, .closeArray =>
    some ⟨lines, .behindValue { site with frames := outer } (.array items.reverse)⟩
  | .table _ _ :: _, .closeTable => afterValue lines site (.scalar none) token
  | _, _ => none

/-- Goes on where a value may come. -/
def atValue (lines : List Line) (site : Site) (token : Token) : Option Outline :=
  let deeper := site.frames.length < nestingLimit
  match token with
  | .blank _ => some ⟨lines, .beforeValue site⟩
  | .word text => some ⟨lines, .bare site text.reverse []⟩
  | .dot => some ⟨lines, .bare site ['.'] []⟩
  | .quoted text => some ⟨lines, .behindValue site (.scalar (text.content.map .string))⟩
  | .openArray =>
    if deeper then some ⟨lines, .beforeValue { site with frames := .array [] :: site.frames }⟩
    else none
  | .openTable => if deeper then some ⟨lines, .beforeMember site []⟩ else none
  | _ => withoutValue lines site token

/-- Goes on with a bare text, which words go on behind blanks, but dots do not. -/
def afterBare (lines : List Line) (site : Site) (text blanks : List Char) (token : Token) :
    Option Outline :=
  match token, blanks with
  | .word more, _ => some ⟨lines, .bare site (more.reverseAux (blanks.reverseAux text)) []⟩
  | .dot, [] => some ⟨lines, .bare site ('.' :: text) []⟩
  | .blank more, _ => some ⟨lines, .bare site text more⟩
  | _, _ => afterValue lines site (.scalar (bareValue? text.reverse)) token

/-- Goes on behind the name of an assignment in a table; its value may be missing. -/
def afterMember (lines : List Line) (site : Site) (assignments : List (Name × Written))
    (name : Name) (token : Token) : Option Outline :=
  let inside := { site with frames := .table assignments name :: site.frames }
  match token with
  | .equals => some ⟨lines, .beforeValue inside⟩
  | .closeTable => afterValue lines inside (.scalar none) token
  | .blank _ | .newline | .comment => some ⟨lines, .behindMember site assignments name⟩
  | _ => none

/-- Closes a header. -/
def closeHeader (lines : List Line) (repeats : Bool) (name : Name) : Outline :=
  ⟨.header repeats name :: lines, if repeats then .closingBracket else .lineEnd⟩

/-- Goes on behind the last part of a name. -/
def afterName (lines : List Line) (owner : Owner) (name : Name) (token : Token) :
    Option Outline :=
  match owner, token with
  | .line, .equals => some ⟨lines, .beforeValue ⟨name, []⟩⟩
  | .header repeats, .closeArray => some (closeHeader lines repeats name)
  | .member site assignments, _ => afterMember lines site assignments name token
  | _, _ => none

/-- Goes on behind a name whose last part is missing. -/
def afterGap (lines : List Line) (owner : Owner) (name : Name) (token : Token) :
    Option Outline :=
  match owner, token with
  | .header repeats, .newline => some ⟨.header repeats name :: lines, .lineStart⟩
  | .header repeats, .closeArray => some (closeHeader lines repeats name)
  | .header repeats, _ => some ⟨.header repeats name :: lines, .passedOver⟩
  | _, _ => afterName lines owner name token

/-- Goes on where a part of a name may come. -/
def atPart (lines : List Line) (owner : Owner) (parts : Name) (token : Token) : Option Outline :=
  match token with
  | .blank _ => some ⟨lines, .beforePart owner parts⟩
  | .word text => some ⟨lines, .behindPart owner (wordPart text :: parts)⟩
  | .quoted text => some ⟨lines, .behindPart owner (quotedPart text :: parts)⟩
  | .dot => some ⟨lines, .beforePart owner (none :: parts)⟩
  | _ => afterGap lines owner (none :: parts).reverse token

/-- Goes on behind a part of a name. -/
def afterPart (lines : List Line) (owner : Owner) (parts : Name) (token : Token) :
    Option Outline :=
  match token with
  | .blank _ => some ⟨lines, .behindPart owner parts⟩
  | .dot => some ⟨lines, .beforePart owner parts⟩
  | _ => afterName lines owner parts.reverse token

/-- Goes on at the start of a line. -/
def atLineStart (lines : List Line) (token : Token) : Option Outline :=
  match token with
  | .blank _ | .newline | .comment => some ⟨lines, .lineStart⟩
  | .openArray => some ⟨lines, .bracket⟩
  | _ => atPart lines .line [] token

/-- Goes on where an assignment in a table may come. -/
def atMember (lines : List Line) (site : Site) (assignments : List (Name × Written))
    (token : Token) : Option Outline :=
  match token with
  | .blank _ | .newline | .comment => some ⟨lines, .beforeMember site assignments⟩
  | .closeTable => some ⟨lines, .behindValue site (.table assignments.reverse)⟩
  | _ => atPart lines (.member site assignments) [] token

/-- Takes one token; none when it cannot stand where it does. -/
def step (outline : Outline) (token : Token) : Option Outline :=
  let lines := outline.lines
  match outline.place, token with
  | .lineStart, _ => atLineStart lines token
  | .bracket, .openArray => some ⟨lines, .beforePart (.header true) []⟩
  | .bracket, _ => atPart lines (.header false) [] token
  | .beforePart owner parts, _ => atPart lines owner parts token
  | .behindPart owner parts, _ => afterPart lines owner parts token
  | .closingBracket, .closeArray => some ⟨lines, .lineEnd⟩
  | .beforeMember site assignments, _ => atMember lines site assignments token
  | .behindMember site assignments name, _ => afterMember lines site assignments name token
  | .beforeValue site, _ => atValue lines site token
  | .bare site text blanks, _ => afterBare lines site text blanks token
  | .behindValue site value, _ => afterValue lines site value token
  | .lineEnd, .newline => some ⟨lines, .lineStart⟩
  | .lineEnd, .blank _ => some outline
  | .lineEnd, .comment => some outline
  | .passedOver, .newline => some ⟨lines, .lineStart⟩
  | .passedOver, _ => some outline
  | _, _ => none

/-- The lines of a complete outline: at its end, no line is unfinished. -/
def lines? (outline : Outline) : Option (List Line) :=
  -- The end of a document ends a line.
  match outline.step .newline with
  | some ⟨lines, .lineStart⟩ => some lines.reverse
  | _ => none

end Outline

/-- The lines that a sequence of tokens forms. -/
def linesOf? (tokens : List Token) : Option (List Line) := do
  (← tokens.foldlM Outline.step ⟨[], .lineStart⟩).lines?

end Stocktake.Toml
