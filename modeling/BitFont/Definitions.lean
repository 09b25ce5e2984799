import BitFont.Draft
import BitFont.Notice

/-!
# Reading glyph definitions

A glyph text is read line by line up to its `END` line. Problems become diagnostics and never stop
the reading. A glyph that is defined more than once keeps the place of its first definition and
has the content of its last.
-/

namespace BitFont

/-- What a glyph text defines, with the problems and notices of reading it. -/
structure Definitions where
  glyphs : Array Glyph := #[]
  diagnostics : Array Diagnostic := #[]
  notices : Array Notice := #[]
  deriving DecidableEq, Repr

namespace Definitions

def note (found : Definitions) (notice : Notice) : Definitions :=
  { found with notices := found.notices.push notice }

def report (found : Definitions) (problems : List Diagnostic) : Definitions :=
  { found with diagnostics := found.diagnostics ++ problems }

/-- Adds a glyph at the end, or puts it in the place of the one with its identifier. -/
def define (found : Definitions) (glyph : Glyph) : Definitions :=
  if found.glyphs.any (·.id == glyph.id) then
    { found with
      glyphs := found.glyphs.map fun old => if old.id == glyph.id then glyph else old
      notices := found.notices.push (.redefined glyph.id) }
  else
    { found with glyphs := found.glyphs.push glyph }

/-- Reports the problems of a finished draft, and defines its glyph. -/
def close (found : Definitions) : Option Draft → Definitions
  | none => found
  | some draft => (found.report draft.problems).define draft.glyph

end Definitions

/-- The state between two lines: the glyph that collects rows, if any, and what was found. -/
structure Reading where
  draft : Option Draft := none
  found : Definitions := {}
  deriving DecidableEq, Repr

namespace Reading

/-- What one statement does. A statement that belongs to a glyph needs one to be open. -/
def apply (reading : Reading) (location : Location) (statement : Statement) : Reading :=
  match reading, statement with
  | reading, .skip => reading
  | reading, .finish => reading
  | ⟨draft, found⟩, .glyph id => ⟨some { id, location }, found.close draft⟩
  | ⟨some draft, found⟩, .dimensions width height =>
    let problems :=
      if height % bandHeight = 0 then [] else [draft.problem location (.invalidHeight height)]
    ⟨some (draft.resize width height), found.report problems⟩
  | ⟨none, found⟩, .dimensions _ _ =>
    ⟨none, found.report [{ glyph := none, location, kind := .dimensionsBeforeGlyph }]⟩
  | ⟨some draft, found⟩, .row bits => ⟨some (draft.addRow bits location), found⟩
  | ⟨none, found⟩, .row _ =>
    ⟨none, found.report [{ glyph := none, location, kind := .rowBeforeGlyph }]⟩
  | ⟨draft, found⟩, .malformed fault =>
    ⟨draft, found.report [{ glyph := draft.map (·.id), location, kind := fault.kind }]⟩

def note (reading : Reading) (line : Line) (statement : Statement) : Reading :=
  match reading with
  | ⟨draft, found⟩ => ⟨draft, found.note (.lineRead line.location.line statement)⟩

/-- Reads lines up to the first `END` line. -/
def readLines (reading : Reading) : List Line → Reading
  | [] => reading
  | line :: rest =>
    let statement := Statement.ofText line.text
    let reading := reading.note line statement
    if statement = .finish then reading
    else readLines (reading.apply line.location statement) rest

/-- What was found once the last glyph is closed. -/
def finish (reading : Reading) : Definitions :=
  reading.found.close reading.draft

end Reading

def Definitions.ofText (text : String) : Definitions :=
  (Reading.readLines {} (Line.ofText text)).finish

end BitFont
