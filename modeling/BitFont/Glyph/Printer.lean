import BitFont.Glyph.Basic
import BitFont.Text.Blank
import BitFont.Text.Numeral

/-!
# Writing glyphs

A glyph is written as the lines of a glyph text: an `ID` line, a `DIM` line, and a line for each
row, in which a cross is a set pixel and a dash an unset one. `Glyph.WellFormed` says which glyphs
can be read back.
-/

namespace BitFont

/-- A pixel as a word of a row. -/
def pixelWord (pixel : Bool) : String := if pixel then "X" else "-"

def Row.line (row : Row) : String := " ".intercalate (row.bits.toList.map pixelWord)

namespace Glyph

def lines (glyph : Glyph) : List String :=
  [s!"ID {glyph.id}", s!"DIM {glyph.width} {glyph.height}"] ++ glyph.rows.toList.map Row.line

/-- The text of a list of glyphs, each line with its line feed. -/
def print (glyphs : List Glyph) : String :=
  String.join ((glyphs.flatMap lines).map (· ++ "\n"))

/-- A glyph that matches its declaration and whose declaration can be written. -/
structure WellFormed (glyph : Glyph) : Prop where
  id_ne_empty : glyph.id ≠ ""
  not_isBlank_of_mem_id : ∀ c ∈ glyph.id.toList, Text.isBlank c = false
  width_pos : 0 < glyph.width
  width_le : glyph.width ≤ Numeral.limit
  height_pos : 0 < glyph.height
  height_le : glyph.height ≤ Numeral.limit
  height_mod : glyph.height % bandHeight = 0
  size_rows : glyph.rows.size = glyph.height
  width_of_mem_rows : ∀ row ∈ glyph.rows, row.width = glyph.width

end Glyph

end BitFont
