import BitFont.Glyph.Basic

/-!
# Packed bitmaps

A bitmap is cut into bands of eight rows. Each column of a band makes one byte, whose most
significant bit is the pixel of the top row.
-/

namespace BitFont

/-- The bands of a bitmap from top to bottom, each a byte for every column. -/
structure Plane where
  bands : List (List UInt8)
  deriving DecidableEq, Repr

namespace Plane

/-- All bytes, band by band. -/
def bytes (plane : Plane) : List UInt8 := plane.bands.flatten

/-- The number of bytes. -/
def size (plane : Plane) : Nat := plane.bands.foldr (fun band size => band.length + size) 0

/-- A plane without bytes. -/
def isEmpty (plane : Plane) : Bool := plane.size == 0

@[simp] theorem length_bytes (plane : Plane) : plane.bytes.length = plane.size := by
  cases plane with
  | mk bands =>
    simp only [bytes, size]
    induction bands with
    | nil => rfl
    | cons band rest ih => rw [List.flatten_cons, List.length_append, ih, List.foldr_cons]

end Plane

/-- The byte with the given bits, most significant first. -/
def byteOfBits (bits : List Bool) : UInt8 :=
  bits.foldl (fun byte bit => (byte <<< 1) ||| (if bit then 1 else 0)) 0

namespace Glyph

/-- The byte of one column, eight pixels downwards from `top`. -/
def columnByte (glyph : Glyph) (top column : Nat) : UInt8 :=
  byteOfBits ((List.range bandHeight).map fun down => glyph.pixel (top + down) column)

/-- One band of the bitmap. -/
def band (glyph : Glyph) (index : Nat) : List UInt8 :=
  (List.range glyph.width).map (glyph.columnByte (index * bandHeight))

/-- The packed bitmap: all whole bands at the declared width. -/
def plane (glyph : Glyph) : Plane :=
  ⟨(List.range glyph.bandCount).map glyph.band⟩

@[simp] theorem length_band (glyph : Glyph) (index : Nat) :
    (glyph.band index).length = glyph.width := by
  simp [band]

/-- A plane has one byte for each column of each whole band. -/
theorem size_plane (glyph : Glyph) : glyph.plane.size = glyph.width * glyph.bandCount := by
  have sizes (indices : List Nat) :
      (indices.map glyph.band).foldr (fun band size => band.length + size) 0 =
        indices.length * glyph.width := by
    induction indices with
    | nil => simp
    | cons index rest ih =>
      rw [List.map_cons, List.foldr_cons, ih, length_band, List.length_cons, Nat.succ_mul,
        Nat.add_comm]
  rw [plane, Plane.size, sizes, List.length_range, Nat.mul_comm]

end Glyph

end BitFont
