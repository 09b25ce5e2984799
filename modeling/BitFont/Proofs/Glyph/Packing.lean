import BitFont.Glyph.Plane
import Mathlib.Data.List.Induction

/-!
# Pixels in the packed bitmap

Where a pixel is found in the bytes of a plane: the pixel of a row and a column is bit
`7 - row % 8` of byte `row / 8 * width + column`, for every row of a whole band
(`testBit_bytes_plane`). Rows below the last whole band are in no byte, and rows that were never
collected are unset pixels.
-/

namespace BitFont

theorem byteOfBits_concat (bits : List Bool) (bit : Bool) :
    byteOfBits (bits ++ [bit]) = (byteOfBits bits <<< 1) ||| (if bit then 1 else 0) := by
  rw [byteOfBits, List.foldl_append]
  rfl

/-- The bits of a byte with one more bit shifted in at the low end. -/
theorem testBit_shiftIn (byte : UInt8) (bit : Bool) (k : Nat) :
    ((byte <<< 1) ||| (if bit then 1 else 0)).toNat.testBit k =
      if k = 0 then bit else decide (k < 8) && byte.toNat.testBit (k - 1) := by
  have hlow : (if bit then (1 : UInt8) else 0).toNat.testBit k = (decide (k = 0) && bit) := by
    cases bit with
    | true => cases k <;> simp [Nat.testBit_succ]
    | false => simp
  have hhigh : (byte <<< 1).toNat.testBit k =
      (decide (k < 8) && (decide (1 ≤ k) && byte.toNat.testBit (k - 1))) := by
    rw [UInt8.toNat_shiftLeft, Nat.testBit_mod_two_pow, Nat.testBit_shiftLeft]
    rfl
  rw [UInt8.toNat_or, Nat.testBit_or, hlow, hhigh]
  cases k with
  | zero => simp
  | succ k => simp

/-- The bits of a byte from the low end are the given bits from the back. -/
theorem testBit_byteOfBits (bits : List Bool) (k : Nat) :
    (byteOfBits bits).toNat.testBit k = (decide (k < 8) && bits.reverse[k]?.getD false) := by
  induction bits using List.reverseRecOn generalizing k with
  | nil => simp [byteOfBits]
  | append_singleton bits bit ih =>
    rw [byteOfBits_concat, testBit_shiftIn, List.reverse_append, List.reverse_singleton,
      List.singleton_append]
    cases k with
    | zero => simp
    | succ k =>
      rw [if_neg (Nat.succ_ne_zero k), Nat.add_sub_cancel, ih, List.getElem?_cons_succ]
      by_cases hk : k + 1 < 8
      · have hlt : k < 8 := by omega
        simp [hlt]
      · simp [hk]

/-- Pieces of one length are found in their concatenation by division. -/
theorem getElem?_flatten_of_length {α : Type} {pieces : List (List α)} {length : Nat}
    (h : ∀ piece ∈ pieces, piece.length = length) (i : Nat) {j : Nat} (hj : j < length) :
    pieces.flatten[i * length + j]? = pieces[i]?.bind (·[j]?) := by
  induction pieces generalizing i with
  | nil => simp
  | cons piece pieces ih =>
    obtain ⟨hpiece, hpieces⟩ := List.forall_mem_cons.mp h
    rw [List.flatten_cons]
    cases i with
    | zero =>
      rw [Nat.zero_mul, Nat.zero_add, List.getElem?_append_left (by omega), List.getElem?_cons_zero,
        Option.bind_some]
    | succ i =>
      have hindex : (i + 1) * length + j - piece.length = i * length + j := by
        rw [hpiece, Nat.succ_mul]
        omega
      have hbeyond : piece.length ≤ (i + 1) * length + j := by
        rw [hpiece, Nat.succ_mul]
        omega
      rw [List.getElem?_append_right hbeyond, hindex, List.getElem?_cons_succ, ih hpieces]

namespace Glyph

theorem testBit_columnByte (glyph : Glyph) (top column : Nat) {down : Nat} (h : down < bandHeight) :
    (glyph.columnByte top column).toNat.testBit (7 - down) = glyph.pixel (top + down) column := by
  have hdown : down < 8 := h
  have hindex : 8 - 1 - (7 - down) = down := by omega
  rw [columnByte, testBit_byteOfBits, List.getElem?_reverse (by simp [bandHeight]; omega)]
  have hbit : 7 - down < 8 := by omega
  simp [bandHeight, hbit, hindex, hdown]

theorem getElem?_bytes_plane (glyph : Glyph) {index column : Nat} (hindex : index < glyph.bandCount)
    (hcolumn : column < glyph.width) :
    glyph.plane.bytes[index * glyph.width + column]? =
      some (glyph.columnByte (index * bandHeight) column) := by
  have hlength : ∀ band ∈ (List.range glyph.bandCount).map glyph.band, band.length = glyph.width := by
    intro band hband
    obtain ⟨i, -, rfl⟩ := List.mem_map.mp hband
    exact length_band glyph i
  rw [Plane.bytes, plane, getElem?_flatten_of_length hlength index hcolumn, List.getElem?_map,
    List.getElem?_range hindex, Option.map_some, Option.bind_some, band, List.getElem?_map,
    List.getElem?_range hcolumn, Option.map_some]

/-- Every pixel of a whole band is one bit of one byte. -/
theorem testBit_bytes_plane (glyph : Glyph) {row column : Nat}
    (hrow : row < bandHeight * glyph.bandCount) (hcolumn : column < glyph.width) :
    (glyph.plane.bytes[row / bandHeight * glyph.width + column]?).map
        (fun byte => byte.toNat.testBit (7 - row % bandHeight)) =
      some (glyph.pixel row column) := by
  have hindex : row / bandHeight < glyph.bandCount := Nat.div_lt_of_lt_mul hrow
  have hdown : row % bandHeight < bandHeight := Nat.mod_lt _ (by decide)
  rw [getElem?_bytes_plane glyph hindex hcolumn, Option.map_some,
    testBit_columnByte glyph _ _ hdown, Nat.div_add_mod']

end Glyph

end BitFont
