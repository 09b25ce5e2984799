import BitFont.Compilation
import BitFont.Proofs.Glyph.Packing
import BitFont.Proofs.Layout.Offsets
import BitFont.Proofs.Run.Stretches

/-!
# Reading glyphs from the stream

A reader that knows the offset and the declared size of a glyph finds its bitmap in the stream. It
reads items until it has a byte for each column of each whole band; then it has read exactly the
glyph's range of the stream, and the bits of the bytes are the pixels of the glyph.
-/

namespace BitFont.Compilation

/-- The sizes that are laid out for a list of glyphs. -/
def encodedSizes (glyphs : List Glyph) : List (String × Nat) :=
  glyphs.map fun glyph => (glyph.id, (EncodedGlyph.ofGlyph glyph).size)

/-- The stream of a list of glyphs. -/
def encodedBytes (glyphs : List Glyph) : List UInt8 :=
  glyphs.flatMap fun glyph => (EncodedGlyph.ofGlyph glyph).bytes

theorem payload_ofDefinitions (found : Definitions) :
    (ofDefinitions found).payload = encodedBytes found.glyphs.toList := by
  rw [payload, encodedBytes, ofDefinitions, List.flatMap_map]

/-- The layout and the stream advance together. -/
theorem span_encodedSizes (glyphs : List Glyph) :
    Layout.span (encodedSizes glyphs) = (encodedBytes glyphs).length := by
  rw [encodedBytes, List.length_flatMap, Layout.span, encodedSizes, List.map_map]
  rfl

theorem layout_ofDefinitions (found : Definitions) :
    (ofDefinitions found).layout = Layout.ofSizes (encodedSizes found.glyphs.toList) := by
  rw [ofDefinitions, List.map_map]
  rfl

theorem getElem?_entries_ofDefinitions (found : Definitions) (i : Nat) :
    (ofDefinitions found).layout.entries[i]? = found.glyphs.toList[i]?.map fun glyph =>
      { id := glyph.id
        index := i
        offset := (encodedBytes (found.glyphs.toList.take i)).length
        size := (EncodedGlyph.ofGlyph glyph).size } := by
  have htake : (encodedSizes found.glyphs.toList).take i =
      encodedSizes (found.glyphs.toList.take i) := List.map_take.symm
  rw [layout_ofDefinitions, Layout.getElem?_entries_ofSizes, htake, span_encodedSizes,
    encodedSizes, List.getElem?_map, Option.map_map]
  rfl

/-- There is one compiled glyph for each definition, with its own data and its own place. -/
theorem getElem?_glyphs (found : Definitions) (i : Nat) :
    (ofDefinitions found).glyphs[i]? = found.glyphs.toList[i]?.map fun glyph =>
      { definition := glyph
        encoded := EncodedGlyph.ofGlyph glyph
        entry :=
          { id := glyph.id
            index := i
            offset := (encodedBytes (found.glyphs.toList.take i)).length
            size := (EncodedGlyph.ofGlyph glyph).size } } := by
  have hentry := getElem?_entries_ofDefinitions found i
  rw [← Array.getElem?_toList] at hentry
  have hencoded : (ofDefinitions found).encoded[i]? =
      found.glyphs.toList[i]?.map EncodedGlyph.ofGlyph := List.getElem?_map ..
  have hdefinition : (ofDefinitions found).definitions[i]? = found.glyphs.toList[i]? := rfl
  rw [glyphs, List.getElem?_map, List.zip_eq_zipWith, List.getElem?_zipWith, List.zip_eq_zipWith,
    List.getElem?_zipWith, hentry, hencoded, hdefinition]
  cases found.glyphs.toList[i]? with
  | none => rfl
  | some glyph => rfl

/-- The data of a compiled glyph stands in the stream between what is laid out before its offset and
the data of the glyphs behind it. -/
theorem exists_payload_split {found : Definitions} {glyph : CompiledGlyph}
    (h : glyph ∈ (ofDefinitions found).glyphs) :
    glyph.encoded = EncodedGlyph.ofGlyph glyph.definition ∧
      glyph.entry.size = glyph.encoded.bytes.length ∧
      ∃ before after, (ofDefinitions found).payload = before ++ (glyph.encoded.bytes ++ after) ∧
        glyph.entry.offset = before.length := by
  obtain ⟨i, hi⟩ := List.getElem?_of_mem h
  rw [getElem?_glyphs] at hi
  obtain ⟨definition, hdefinition, rfl⟩ := Option.map_eq_some_iff.mp hi
  refine ⟨rfl, rfl, encodedBytes (found.glyphs.toList.take i),
    encodedBytes (found.glyphs.toList.drop (i + 1)), ?_, rfl⟩
  obtain ⟨hlt, hget⟩ := List.getElem?_eq_some_iff.mp hdefinition
  have hsplit : found.glyphs.toList =
      found.glyphs.toList.take i ++ definition :: found.glyphs.toList.drop (i + 1) := by
    rw [← hget, ← List.drop_eq_getElem_cons hlt, List.take_append_drop]
  rw [payload_ofDefinitions]
  conv => lhs; rw [hsplit]
  rw [encodedBytes, List.flatMap_append, List.flatMap_cons, encodedBytes, encodedBytes]

theorem length_bytes_plane (glyph : Glyph) :
    glyph.plane.bytes.length = glyph.width * (glyph.height / bandHeight) := by
  rw [Plane.length_bytes, Glyph.size_plane, Glyph.bandCount]

/-- Every glyph of a compiled text is read back from the stream. From its offset on, the reader gets
one byte for each column of each whole band, neither overshooting that number nor running out of
data, and stops exactly at the end of the glyph's range. The bits of these bytes, the top row of a
band in the highest bit, are the pixels of the glyph. -/
theorem decodeExactly?_payload (text : String) {glyph : CompiledGlyph}
    (h : glyph ∈ (ofText text).glyphs) :
    let offset := glyph.entry.offset
    let width := glyph.definition.width
    let bands := glyph.definition.height / 8
    offset + glyph.entry.size ≤ (ofText text).payload.length ∧
      ∃ bytes,
        Run.decodeExactly? (width * bands) ((ofText text).payload.drop offset) =
            some (bytes, (ofText text).payload.drop (offset + glyph.entry.size)) ∧
          bytes.length = width * bands ∧
          ∀ row < 8 * bands, ∀ column < width,
            (bytes[row / 8 * width + column]?).map
                (fun byte => byte.toNat.testBit (7 - row % 8)) =
              some (glyph.definition.pixel row column) := by
  intro offset width bands
  obtain ⟨hencoded, hsize, before, after, hpayload, hoffset⟩ := exists_payload_split h
  have hbefore : offset = before.length := hoffset
  have hpayload' : (ofText text).payload = before ++ (glyph.encoded.bytes ++ after) := hpayload
  have hlength : glyph.definition.plane.bytes.length = width * bands :=
    length_bytes_plane glyph.definition
  rw [hpayload', hbefore, hsize]
  refine ⟨?_, glyph.definition.plane.bytes, ?_, hlength, ?_⟩
  · simp only [List.length_append]
    omega
  · -- Both cuts of the stream fall between whole glyphs, so the reader starts at this glyph's first
    -- item and what it leaves begins with the next glyph's.
    rw [List.drop_left, List.drop_append, ← hlength, hencoded]
    simp only [List.drop_eq_nil_of_le (Nat.le_add_right _ _), Nat.add_sub_cancel_left,
      List.drop_left, List.nil_append]
    exact Run.decodeExactly?_encode_append _ _
  · intro row hrow column hcolumn
    exact Glyph.testBit_bytes_plane glyph.definition hrow hcolumn

/-- The second of two glyphs: it has a height that is no multiple of eight and fewer rows, and the
last of its items reaches over the end of a band. -/
theorem decodeExactly?_payload_short_glyph :
    let compilation := ofText "ID a\nDIM 2 8\nX\nID b\nDIM 3 17\n- X\nX\n"
    let glyph : CompiledGlyph :=
      { definition :=
          { id := "b", width := 3, height := 17,
            rows := #[⟨#[false, true, false]⟩, ⟨#[true, false, false]⟩] }
        encoded := { id := "b", bytes := [1, 64, 1, 128, 4, 0], dim := 6 }
        entry := { id := "b", index := 1, offset := 3, size := 6 } }
    glyph ∈ compilation.glyphs ∧
      ∃ bytes, Run.decodeExactly? (3 * (17 / 8)) (compilation.payload.drop 3) =
        some (bytes, compilation.payload.drop 9) := by
  intro compilation glyph
  have hglyph : glyph ∈ compilation.glyphs := by decide +kernel
  obtain ⟨-, bytes, hread, -⟩ := decodeExactly?_payload _ hglyph
  exact ⟨hglyph, bytes, hread⟩

end BitFont.Compilation
