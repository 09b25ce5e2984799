/-!
# Glyphs

A glyph is a named bitmap: a declared width and height and the rows that were collected for it.
The rows need not match the declaration, so every pixel outside of them is unset.
-/

namespace BitFont

/-- Rows are packed in bands of this height. -/
def bandHeight : Nat := 8

/-- One row of pixels, first column first. -/
structure Row where
  bits : Array Bool
  deriving DecidableEq, Repr, Inhabited

namespace Row

/-- The row of exactly `width` pixels that begins with `bits`: longer rows are cut, and shorter
ones are filled up with unset pixels. -/
def fit (bits : Array Bool) (width : Nat) : Row :=
  ⟨bits.extract 0 width ++ Array.replicate (width - bits.size) false⟩

def width (row : Row) : Nat := row.bits.size

/-- The pixel in a column, unset outside of the row. -/
def get (row : Row) (column : Nat) : Bool := row.bits[column]?.getD false

@[simp] theorem width_fit (bits : Array Bool) (width : Nat) : (fit bits width).width = width := by
  simp only [fit, Row.width, Array.size_append, Array.size_extract, Array.size_replicate]
  omega

/-- Fitting a row changes no pixel inside the width and unsets all others. -/
theorem get_fit (bits : Array Bool) (width column : Nat) :
    (fit bits width).get column = (decide (column < width) && bits[column]?.getD false) := by
  simp only [fit, get, Array.getElem?_append, Array.size_extract, Array.getElem?_extract,
    Array.getElem?_replicate]
  by_cases inside : column < width <;> by_cases present : column < bits.size
  · have left : column < min width bits.size - 0 := by omega
    have shorter : column < min width bits.size := by omega
    simp [inside, shorter]
  · have right : ¬ column < min width bits.size := by omega
    simp only [inside, decide_true, Bool.true_and]
    simp [right, present]
    split <;> simp
  · have right : ¬ column < min width bits.size := by omega
    have beyond : ¬ column - min width bits.size < width - bits.size := by omega
    simp [inside, right, beyond]
  · have right : ¬ column < min width bits.size := by omega
    have beyond : ¬ column - min width bits.size < width - bits.size := by omega
    simp [inside, right, beyond]

end Row

/-- A named bitmap with its declared size. -/
structure Glyph where
  id : String
  width : Nat
  height : Nat
  rows : Array Row
  deriving DecidableEq, Repr, Inhabited

namespace Glyph

/-- The pixel at a row and a column, unset where nothing was collected. -/
def pixel (glyph : Glyph) (row column : Nat) : Bool :=
  (glyph.rows[row]?.map (·.get column)).getD false

/-- The number of whole bands; rows below the last whole band belong to none. -/
def bandCount (glyph : Glyph) : Nat := glyph.height / bandHeight

/-- The size of the bitmap in bytes, as its declaration gives it. -/
def dim (glyph : Glyph) : Nat := glyph.width * glyph.height / bandHeight

end Glyph

end BitFont
