import BitFont.Text.Blank

/-!
# Paths

A path is kept as it was written, because messages repeat it. Its segments are the parts between
slashes; empty segments and dots behind the first segment do not count when the parent is sought.
-/

namespace BitFont

/-- A path as it was written. -/
structure Path where
  text : String
  deriving DecidableEq, Repr

/-- One step of a walk along a path. -/
inductive Step where
  | stay
  | up
  | into (name : String)
  deriving DecidableEq, Repr

namespace Path

/-- The parts between slashes, one more than there are slashes. -/
def segments (path : Path) : List String :=
  (Text.fields (· == '/') path.text.toList).map String.ofList

def ofSegments (segments : List String) : Path := ⟨"/".intercalate segments⟩

def isAbsolute (path : Path) : Bool := path.text.toList.head? == some '/'

/-- A path that ends in a slash, and so can only mean a directory. -/
def endsInSlash (path : Path) : Bool := path.text.toList.getLast? == some '/'

/-- A path that no file system takes, because of a NUL character. -/
def hasNul (path : Path) : Bool := path.text.toList.any (· == '\x00')

/-- The step that a segment means, if any. -/
def stepOfSegment (segment : String) : Option Step :=
  if segment = "" then none
  else if segment = "." then some .stay
  else if segment = ".." then some .up
  else some (.into segment)

/-- The steps of a walk along the path. -/
def steps (path : Path) : List Step := path.segments.filterMap stepOfSegment

/-- A segment that names nothing. -/
def isIdle (segment : String) : Bool := segment == "" || segment == "."

/-- The segments without idle ones at the end. -/
def trimEnd (segments : List String) : List String :=
  (segments.reverse.dropWhile isIdle).reverse

/-- The segment from which an absolute path starts is empty, and so is the text of the root. -/
def ofFirst (first : String) (rest : List String) : Path :=
  if first = "" ∧ rest = [] then ⟨"/"⟩ else ofSegments (first :: rest)

/-- The path without its last name; `none` for the root and for the empty path. -/
def parent? (path : Path) : Option Path :=
  match path.segments with
  | [] => none
  | first :: rest =>
    match trimEnd rest with
    | [] => if first = "" then none else some ⟨""⟩
    | kept => some (ofFirst first (trimEnd kept.dropLast))

/-- The parents of a path from the nearest one on, as far as they have names. -/
def parentsUpTo : Nat → Path → List Path
  | 0, _ => []
  | fuel + 1, path =>
    match path.parent? with
    | none => []
    | some parent => if parent.text = "" then [] else parent :: parentsUpTo fuel parent

def parents (path : Path) : List Path := parentsUpTo path.segments.length path

/-- A path relative to a directory, or itself if it is absolute. -/
def under (root path : Path) : Path :=
  if path.isAbsolute || root.text = "" then path
  else if root.endsInSlash then ⟨root.text ++ path.text⟩
  else ⟨root.text ++ "/" ++ path.text⟩

end Path

end BitFont
