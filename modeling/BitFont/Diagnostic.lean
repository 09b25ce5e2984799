import BitFont.Text.Line

/-!
# Diagnostics

Problems in a glyph text. None of them stops reading; each says what is wrong, at which line and
in which glyph. `Diagnostic.report` writes a list of them for people to read.
-/

namespace BitFont

/-- What is wrong. -/
inductive Diagnostic.Kind where
  | rowCountMismatch (expected found : Nat)
  | invalidHeight (height : Nat)
  | rowBeforeGlyph
  | dimensionsBeforeGlyph
  | missingDimensions
  /-- Rows are counted from one. -/
  | shortRow (row expected found : Nat)
  | malformedDirective (directive reason : String)
  deriving DecidableEq, Repr

def Diagnostic.Kind.message : Diagnostic.Kind → String
  | .rowCountMismatch expected found =>
    s!"wrong number of lines: expected {expected}, found {found}"
  | .invalidHeight height => s!"height must be a multiple of 8, found {height}"
  | .rowBeforeGlyph => "pixel row found outside of any glyph"
  | .dimensionsBeforeGlyph => "'DIM' found outside of any glyph"
  | .missingDimensions => "missing 'DIM' directive"
  | .shortRow row expected found => s!"row {row} has {found} pixels, expected {expected}"
  | .malformedDirective directive reason => s!"malformed '{directive}' directive: {reason}"

/-- A problem with the line it was found at and the glyph it belongs to, if any. -/
structure Diagnostic where
  glyph : Option String
  location : Location
  kind : Diagnostic.Kind
  deriving DecidableEq, Repr

namespace Diagnostic

/-- The problem in one line: glyph, wording, line number. -/
def message (diagnostic : Diagnostic) : String :=
  let owner := match diagnostic.glyph with
    | some glyph => glyph ++ ": "
    | none => ""
  owner ++ diagnostic.kind.message ++ s!" (line {diagnostic.location.line})"

def reportLine (diagnostic : Diagnostic) : String :=
  s!"ERROR: {diagnostic.message}\n"

/-- The report of all diagnostics. Two or more are counted first. -/
def report (diagnostics : List Diagnostic) : String :=
  let lines := String.join (diagnostics.map reportLine)
  if diagnostics.length ≤ 1 then lines else s!"{diagnostics.length} errors:\n" ++ lines

def ofGlyph (diagnostics : List Diagnostic) (id : String) : List Diagnostic :=
  diagnostics.filter (·.glyph == some id)

end Diagnostic

end BitFont
