import BitFont.Proofs.Compilation.Streams

/-!
# The size of the packed bitmap

The size that is noted for a glyph is the area of its declaration, and the packed bitmap holds whole
bands only. The two differ by the rows below the last whole band: not at all for the heights that
are accepted without a diagnostic, and otherwise as soon as these rows make up eight pixels
(`dim_eq_length_iff`).
-/

namespace BitFont

theorem Glyph.dim_eq_length_add (glyph : Glyph) :
    glyph.dim = glyph.plane.bytes.length + glyph.width * (glyph.height % 8) / 8 := by
  have harea : glyph.width * glyph.height =
      8 * (glyph.width * (glyph.height / 8)) + glyph.width * (glyph.height % 8) := by
    calc glyph.width * glyph.height
        = glyph.width * (8 * (glyph.height / 8) + glyph.height % 8) := by rw [Nat.div_add_mod]
      _ = 8 * (glyph.width * (glyph.height / 8)) + glyph.width * (glyph.height % 8) := by
          rw [Nat.mul_add, Nat.mul_left_comm]
  rw [dim, bandHeight, harea, Nat.mul_add_div (by decide), Compilation.length_bytes_plane]
  rfl

namespace Compilation

/-- The data of a glyph decodes to its packed bitmap. The noted size exceeds the number of these
bytes by what the rows below the last whole band would take, so it is right exactly if they have
fewer than eight pixels, and in particular for every height that is a multiple of eight. -/
theorem dim_eq_length_iff (text : String) {glyph : CompiledGlyph}
    (h : glyph ∈ (ofText text).glyphs) :
    let width := glyph.definition.width
    let left := glyph.definition.height % 8
    Run.decode? glyph.encoded.bytes = some glyph.definition.plane.bytes ∧
      glyph.encoded.dim = glyph.definition.plane.bytes.length + width * left / 8 ∧
      (glyph.encoded.dim = glyph.definition.plane.bytes.length ↔ width * left < 8) := by
  intro width left
  obtain ⟨hencoded, -⟩ := exists_payload_split h
  have hdim : glyph.encoded.dim = glyph.definition.plane.bytes.length + width * left / 8 := by
    rw [hencoded]
    exact glyph.definition.dim_eq_length_add
  refine ⟨?_, hdim, ?_⟩
  · rw [hencoded]
    exact Run.decode?_encode _
  · rw [hdim, Nat.add_eq_left, Nat.div_eq_zero_iff_lt (by decide)]

/-- A single row below the last band is not counted where it is narrow. -/
theorem dim_eq_length_iff_narrow :
    let glyph : CompiledGlyph :=
      { definition :=
          { id := "A"
            width := 7
            height := 9
            rows := #[⟨#[true, false, false, false, false, false, false]⟩] }
        encoded := { id := "A", bytes := [1, 128, 6, 0], dim := 7 }
        entry := { id := "A", index := 0, offset := 0, size := 4 } }
    glyph ∈ (ofText "ID A\nDIM 7 9\nX\n").glyphs ∧
      glyph.encoded.dim = glyph.definition.plane.bytes.length := by
  intro glyph
  have hglyph : glyph ∈ (ofText "ID A\nDIM 7 9\nX\n").glyphs := by decide +kernel
  obtain ⟨-, -, hiff⟩ := dim_eq_length_iff _ hglyph
  exact ⟨hglyph, hiff.mpr (by decide)⟩

/-- A row of eight pixels below the last band is counted and not packed. -/
theorem dim_ne_length_wide :
    ¬ ∀ text, ∀ glyph ∈ (ofText text).glyphs, ∃ bytes,
      Run.decode? glyph.encoded.bytes = some bytes ∧ bytes = glyph.definition.plane.bytes ∧
        bytes.length = glyph.encoded.dim := by
  intro hall
  have hglyph :
      ({ definition := { id := "A", width := 8, height := 9, rows := #[] }
         encoded := { id := "A", bytes := [8, 0], dim := 9 }
         entry := { id := "A", index := 0, offset := 0, size := 2 } } : CompiledGlyph) ∈
        (ofText "ID A\nDIM 8 9\n").glyphs := by
    decide +kernel
  obtain ⟨bytes, -, rfl, hlength⟩ := hall _ _ hglyph
  rw [length_bytes_plane] at hlength
  contradiction

end Compilation

end BitFont
