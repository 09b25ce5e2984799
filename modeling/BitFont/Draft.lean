import BitFont.Diagnostic
import BitFont.Glyph.Basic

/-!
# Glyphs in the making

A draft collects what the lines behind an `ID` line say. When it is finished, its rows are fitted
to the declared width, and everything that does not match the declaration is reported.
-/

namespace BitFont

/-- A row as it was written, before it is fitted to the width. -/
structure DraftRow where
  bits : Array Bool
  location : Location
  deriving DecidableEq, Repr

/-- A glyph that is still collecting rows. -/
structure Draft where
  id : String
  location : Location
  dimensions : Option (Nat × Nat) := none
  rows : Array DraftRow := #[]
  deriving DecidableEq, Repr

namespace Draft

/-- Declares the size, whatever was declared before. -/
def resize (draft : Draft) (width height : Nat) : Draft :=
  { draft with dimensions := some (width, height) }

/-- Adds a row at the bottom. -/
def addRow (draft : Draft) (bits : List Bool) (location : Location) : Draft :=
  { draft with rows := draft.rows.push { bits := bits.toArray, location } }

/-- The declared width and height, zero without a declaration. -/
def extent (draft : Draft) : Nat × Nat := draft.dimensions.getD (0, 0)

def problem (draft : Draft) (location : Location) (kind : Diagnostic.Kind) : Diagnostic :=
  { glyph := some draft.id, location, kind }

/-- One problem for each row that is shorter than the width, at that row. -/
def shortRows (draft : Draft) (width : Nat) : List Diagnostic :=
  draft.rows.toList.zipIdx.filterMap fun (row, index) =>
    if row.bits.size < width then
      some (draft.problem row.location (.shortRow (index + 1) width row.bits.size))
    else
      none

/-- A problem at the `ID` line unless there are `height` rows. -/
def rowCount (draft : Draft) (height : Nat) : List Diagnostic :=
  if draft.rows.size = height then []
  else [draft.problem draft.location (.rowCountMismatch height draft.rows.size)]

/-- What is wrong with the finished draft. -/
def problems (draft : Draft) : List Diagnostic :=
  match draft.dimensions with
  | none => [draft.problem draft.location .missingDimensions]
  | some (width, height) => draft.shortRows width ++ draft.rowCount height

/-- The glyph that the draft describes, with every row fitted to the width. -/
def glyph (draft : Draft) : Glyph :=
  { id := draft.id
    width := draft.extent.1
    height := draft.extent.2
    rows := draft.rows.map fun row => Row.fit row.bits draft.extent.1 }

end Draft

end BitFont
