import Stocktake.Text.Utf8

/-! Paths are texts that are read as sequences of components, without looking at any file. A name on
a disk is made of bytes, which need not be UTF-8, so that a relative path is told by bytes. -/

namespace Stocktake

/-- A component of a path; nothing is resolved, so a parent step stays a component. -/
inductive Component
  | root
  | current
  | parent
  | name (text : String)
  deriving DecidableEq, Repr

/-- The spelling of a component. -/
def Component.text : Component → String
  | .root => "/"
  | .current => "."
  | .parent => ".."
  | .name text => text

/-- A component of bytes as it is shown: what is no UTF-8 in its name is replaced. -/
def Component.decoded : Component → Component
  | .name text => .name (String.ofList (utf8Lossy (text.toList.map Char.toUInt8)))
  | component => component

namespace Path

/-- The component that a segment between slashes spells, none for an empty one and for a dot. -/
def component? : List Char → Option Component
  | [] => none
  | ['.'] => none
  | ['.', '.'] => some .parent
  | text => some (.name (String.ofList text))

/-- The components of a path: only a leading slash and a leading dot count as components. -/
def components (path : String) : List Component :=
  match path.toList.splitOn '/' with
  | [] :: first :: rest => .root :: (first :: rest).filterMap component?
  | ['.'] :: rest => .current :: rest.filterMap component?
  | segments => segments.filterMap component?

/-- A path is absolute when it begins with a slash. -/
def isAbsolute (path : String) : Bool :=
  path.toList.head? == some '/'

/-- Puts a path behind a directory; an absolute path stands for itself. -/
def join (directory path : String) : String :=
  if isAbsolute path then path
  else if directory.isEmpty || directory.toList.getLast? == some '/' then directory ++ path
  else directory ++ "/" ++ path

/-- The components of a path behind those of a root, or all when the root does not lead to it. -/
def componentsBelow (root path : String) : List Component :=
  ((components root).isPrefixOf? (components path)).getD (components path)

/-- The text that stands for a path of bytes: it has one character for each byte, and its components
are those of the path, with names of such characters. -/
def byteText (path : Bytes) : String :=
  String.ofList (path.map Char.ofUInt8)

/-- The components of a path of bytes, with one character for each byte of their names. -/
def byteComponents (path : Bytes) : List Component :=
  components (byteText path)

/-- A path of bytes relative to a root: the components below it as they are shown, with slashes
between them. -/
def relativeBytes (root path : Bytes) : String :=
  String.intercalate "/"
    ((componentsBelow (byteText root) (byteText path)).map (·.decoded.text))

/-- The bytes of a path that is a text. -/
def bytesOf (path : String) : Bytes :=
  utf8Encode path.toList

/-- A path relative to a root, both of them texts. -/
def relative (root path : String) : String :=
  relativeBytes (bytesOf root) (bytesOf path)

/-- A path ends with the components of another. -/
def endsWith (path ending : String) : Bool :=
  (components ending).isSuffixOf (components path)

/-- A segment that adds no component where it is not the first. -/
def isSlack (segment : List Char) : Bool :=
  segment.isEmpty || segment == ['.']

/-- Drops the segments at the end that add no component. -/
def dropSlack (segments : List (List Char)) : List (List Char) :=
  (segments.reverse.dropWhile isSlack).reverse

/-- The segments that are dropped stand behind the others, and add no component. -/
theorem exists_dropSlack_append (segments : List (List Char)) :
    ∃ dropped, dropSlack segments ++ dropped = segments ∧
      ∀ segment ∈ dropped, isSlack segment = true := by
  -- What is dropped is read from the end, so it is the part that a search from there takes.
  refine ⟨(segments.reverse.takeWhile isSlack).reverse, ?_, fun segment member => ?_⟩
  · rw [dropSlack, ← List.reverse_append, List.takeWhile_append_dropWhile, List.reverse_reverse]
  · exact List.all_eq_true.mp List.all_takeWhile segment (List.mem_reverse.mp member)

/-- What is left of some segments comes first among them. -/
theorem dropSlack_isPrefix (segments : List (List Char)) : dropSlack segments <+: segments := by
  -- Only segments behind the others are dropped.
  obtain ⟨dropped, shape, -⟩ := exists_dropSlack_append segments
  exact ⟨dropped, shape⟩

/-- The text of a path up to the end of its last component but one; none without a last one. -/
def parent? (path : String) : Option String :=
  match path.toList.splitOn '/' with
  | [] :: first :: rest =>
    match dropSlack (first :: rest) with
    | [] => none
    | body => some (String.ofList ('/' :: ['/'].intercalate (dropSlack body.dropLast)))
  | first :: rest =>
    match dropSlack rest with
    | [] => if first.isEmpty then none else some ""
    | body => some (String.ofList (['/'].intercalate (first :: dropSlack body.dropLast)))
  | [] => none

/-- A path and its parents from the nearest on, at most a given number of them. -/
def ancestors : Nat → String → List String
  | 0, _ => []
  | count + 1, path =>
    path :: match parent? path with
      | some parent => ancestors count parent
      | none => []

/-- The part of a name behind its last dot, none when no dot stands behind its first character. -/
def nameExtension? (name : String) : Option String :=
  let reversed := name.toList.reverse
  match reversed.dropWhile (· != '.') with
  | _ :: _ :: _ => some (String.ofList (reversed.takeWhile (· != '.')).reverse)
  | _ => none

/-- The extension of the name that a path ends with. -/
def extension? (path : String) : Option String :=
  match (components path).getLast? with
  | some (.name name) => nameExtension? name
  | _ => none

/-- A name is hidden when it begins with a dot. -/
def isHidden (name : String) : Bool :=
  name.toList.head? == some '.'

end Path

end Stocktake
