import BitFont.Proofs.Glyph.Packing

/-!
# What a plane shows

A plane shows a glyph if it has one byte for each column of each whole band, whose bits are the
pixels of the column from the top of the band on. Every glyph is shown by its packed bitmap and by
no other plane (`Glyph.shows_iff`), so the packed bitmap hangs on the size of the glyph and on the
pixels of its whole bands alone (`Glyph.shows_plane_and_eq_iff`): not on rows that are too long, on
rows below the last whole band, or on how the unset pixels of short and missing rows come about.
-/

namespace BitFont

theorem eq_of_testBit_eq {byte other : UInt8}
    (h : ∀ k < 8, byte.toNat.testBit k = other.toNat.testBit k) : byte = other := by
  apply UInt8.toNat_inj.mp
  apply Nat.eq_of_testBit_eq
  intro k
  by_cases hk : k < 8
  · exact h k hk
  · -- Both numbers lie below `2 ^ 8`, so all higher bits are unset.
    have hpow : 2 ^ 8 ≤ 2 ^ k := Nat.pow_le_pow_right (by decide) (Nat.le_of_not_lt hk)
    rw [Nat.testBit_lt_two_pow (Nat.lt_of_lt_of_le byte.toNat_lt hpow),
      Nat.testBit_lt_two_pow (Nat.lt_of_lt_of_le other.toNat_lt hpow)]

theorem eq_of_getElem?_range {n i j : Nat} (h : (List.range n)[i]? = some j) : j = i := by
  obtain ⟨hi, rfl⟩ := List.getElem?_eq_some_iff.mp h
  exact List.getElem_range hi

/-- The plane has a band for every eight rows of the glyph, and a band has a byte for every column.
The bits of a byte are the pixels of its column, the most significant one at the top. -/
structure Plane.Shows (plane : Plane) (glyph : Glyph) : Prop where
  length_bands : plane.bands.length = glyph.height / 8
  length_band : ∀ band ∈ plane.bands, band.length = glyph.width
  testBit : ∀ (b c : Nat) (band : List UInt8) (byte : UInt8), plane.bands[b]? = some band →
    band[c]? = some byte → ∀ k < 8, byte.toNat.testBit (7 - k) = glyph.pixel (8 * b + k) c

namespace Plane.Shows

variable {plane other : Plane} {glyph glyph' : Glyph}

/-- There is a byte for every column of every whole band. -/
theorem exists_byte (h : plane.Shows glyph) {b c : Nat} (hb : b < glyph.height / 8)
    (hc : c < glyph.width) :
    ∃ band byte, plane.bands[b]? = some band ∧ band[c]? = some byte := by
  have hband : b < plane.bands.length := h.length_bands ▸ hb
  have hcolumn : c < plane.bands[b].length := by
    rw [h.length_band _ (List.getElem_mem hband)]
    exact hc
  exact ⟨_, _, List.getElem?_eq_getElem hband, List.getElem?_eq_getElem hcolumn⟩

/-- Bands of equal length that agree in all bits are equal. -/
theorem eq (h : plane.Shows glyph) (hother : other.Shows glyph) : plane = other := by
  cases plane with
  | mk bands =>
  cases other with
  | mk bands' =>
    congr 1
    apply List.ext_getElem (h.length_bands.trans hother.length_bands.symm)
    intro b hb hb'
    have hlength : bands[b].length = bands'[b].length := by
      rw [h.length_band _ (List.getElem_mem hb), hother.length_band _ (List.getElem_mem hb')]
    apply List.ext_getElem hlength
    intro c hc hc'
    apply eq_of_testBit_eq
    intro k hk
    have hflip : k = 7 - (7 - k) := by omega
    rw [hflip, h.testBit b c _ _ (List.getElem?_eq_getElem hb) (List.getElem?_eq_getElem hc) _
      (by omega), hother.testBit b c _ _ (List.getElem?_eq_getElem hb')
      (List.getElem?_eq_getElem hc') _ (by omega)]

/-- A plane shows all glyphs of one size that agree on the pixels of the whole bands. -/
theorem of_pixel_eq (h : plane.Shows glyph) (hwidth : glyph'.width = glyph.width)
    (hheight : glyph'.height = glyph.height)
    (hpixel : ∀ row < 8 * (glyph.height / 8), ∀ column < glyph.width,
      glyph'.pixel row column = glyph.pixel row column) : plane.Shows glyph' where
  length_bands := by rw [h.length_bands, hheight]
  length_band := by
    intro band hband
    rw [h.length_band band hband, hwidth]
  testBit := by
    intro b c band byte hband hbyte k hk
    obtain ⟨hb, -⟩ := List.getElem?_eq_some_iff.mp hband
    obtain ⟨hc, -⟩ := List.getElem?_eq_some_iff.mp hbyte
    rw [h.length_bands] at hb
    rw [h.length_band band (List.mem_of_getElem? hband)] at hc
    rw [h.testBit b c band byte hband hbyte k hk, hpixel _ (by omega) c hc]

theorem pixel_eq (h : plane.Shows glyph) (h' : plane.Shows glyph') {row column : Nat}
    (hrow : row < 8 * (glyph.height / 8)) (hcolumn : column < glyph.width) :
    glyph'.pixel row column = glyph.pixel row column := by
  have hdown : row % 8 < 8 := Nat.mod_lt _ (by decide)
  obtain ⟨band, byte, hband, hbyte⟩ := h.exists_byte (Nat.div_lt_of_lt_mul hrow) hcolumn
  have hpixel := h.testBit _ _ band byte hband hbyte (row % 8) hdown
  have hpixel' := h'.testBit _ _ band byte hband hbyte (row % 8) hdown
  rw [Nat.div_add_mod] at hpixel hpixel'
  exact hpixel'.symm.trans hpixel

end Plane.Shows

namespace Glyph

theorem shows_plane (glyph : Glyph) : glyph.plane.Shows glyph where
  length_bands := by
    rw [plane, List.length_map, List.length_range]
    rfl
  length_band := by
    intro band hband
    obtain ⟨b, -, rfl⟩ := List.mem_map.mp hband
    exact length_band glyph b
  testBit := by
    intro b c band byte hband hbyte k hk
    rw [plane, List.getElem?_map, Option.map_eq_some_iff] at hband
    obtain ⟨index, hindex, rfl⟩ := hband
    obtain rfl := eq_of_getElem?_range hindex
    rw [Glyph.band, List.getElem?_map, Option.map_eq_some_iff] at hbyte
    obtain ⟨column, hcolumn, rfl⟩ := hbyte
    obtain rfl := eq_of_getElem?_range hcolumn
    rw [testBit_columnByte glyph _ _ hk, Nat.mul_comm]
    rfl

theorem shows_iff {glyph : Glyph} {plane : Plane} : plane.Shows glyph ↔ plane = glyph.plane := by
  constructor
  · intro h
    exact h.eq glyph.shows_plane
  · rintro rfl
    exact glyph.shows_plane

/-- Two glyphs of one size have the same plane exactly if it shows both. -/
theorem plane_eq_iff {glyph other : Glyph} (hwidth : other.width = glyph.width)
    (hheight : other.height = glyph.height) :
    other.plane = glyph.plane ↔ ∀ row < 8 * (glyph.height / 8), ∀ column < glyph.width,
      other.pixel row column = glyph.pixel row column := by
  constructor
  · intro hsame row hrow column hcolumn
    have hother : glyph.plane.Shows other := shows_iff.mpr hsame.symm
    exact glyph.shows_plane.pixel_eq hother hrow hcolumn
  · intro hpixel
    exact (shows_iff.mp (glyph.shows_plane.of_pixel_eq hwidth hheight hpixel)).symm

/-- The glyph with all its rows cut or filled up to its width. -/
def fitRows (glyph : Glyph) : Glyph :=
  { glyph with rows := glyph.rows.map fun row => Row.fit row.bits glyph.width }

theorem pixel_fitRows (glyph : Glyph) (row column : Nat) :
    glyph.fitRows.pixel row column =
      (decide (column < glyph.width) && glyph.pixel row column) := by
  rw [pixel, pixel, fitRows, Array.getElem?_map, Option.map_map]
  cases glyph.rows[row]? with
  | none => rw [Option.map_none, Option.map_none, Option.getD_none, Bool.and_false]
  | some bits => exact Row.get_fit bits.bits glyph.width column

/-- The packed bitmap of a glyph has a byte for each column of each whole band, whose bits are the
pixels of the column. Among glyphs of one size it depends on nothing else, so fitting the rows to
the width does not change it. -/
theorem shows_plane_and_eq_iff (glyph : Glyph) :
    glyph.plane.Shows glyph ∧
      (∀ other : Glyph, other.width = glyph.width → other.height = glyph.height →
        (other.plane = glyph.plane ↔
          ∀ row < 8 * (glyph.height / 8), ∀ column < glyph.width,
            other.pixel row column = glyph.pixel row column)) ∧
      glyph.fitRows.plane = glyph.plane := by
  have hfit : ∀ row < 8 * (glyph.height / 8), ∀ column < glyph.width,
      glyph.fitRows.pixel row column = glyph.pixel row column := by
    intro row _ column hcolumn
    rw [pixel_fitRows, decide_eq_true hcolumn, Bool.true_and]
  have hwidth : glyph.fitRows.width = glyph.width := rfl
  have hheight : glyph.fitRows.height = glyph.height := rfl
  exact ⟨glyph.shows_plane, fun other => plane_eq_iff, (plane_eq_iff hwidth hheight).mpr hfit⟩

/-- Rows that are too long, too short or missing, and two rows below the only whole band. -/
theorem shows_plane_and_eq_iff_ragged :
    let glyph : Glyph :=
      { id := "a"
        width := 2
        height := 10
        rows := #[⟨#[true]⟩, ⟨#[false, true, true]⟩] }
    let other : Glyph :=
      { id := "b"
        width := 2
        height := 10
        rows := #[⟨#[true, false, true]⟩, ⟨#[false, true]⟩, ⟨#[]⟩, ⟨#[]⟩, ⟨#[]⟩, ⟨#[]⟩, ⟨#[]⟩, ⟨#[]⟩,
          ⟨#[true, true]⟩] }
    other.width = glyph.width ∧ other.height = glyph.height ∧
      glyph.plane = ⟨[[128, 64]]⟩ ∧ other.plane = glyph.plane := by
  intro glyph other
  have hpixel : ∀ row < 8 * (glyph.height / 8), ∀ column < glyph.width,
      other.pixel row column = glyph.pixel row column := by
    decide +kernel
  obtain ⟨-, hiff, -⟩ := shows_plane_and_eq_iff glyph
  exact ⟨rfl, rfl, by decide, (hiff other rfl rfl).mpr hpixel⟩

end Glyph

end BitFont
