import BitFont.Artifact.Basic
import BitFont.Proofs.Artifact.Data
import BitFont.Proofs.Artifact.Header
import BitFont.Proofs.Compilation.Invariant

/-!
# Agreement of the files

The two files of a font are joined by names alone: the tables of the data file have names where the
header has numbers. Whoever looks the names up gets the layout of the font, and cuts the stream of
bytes where its glyphs begin and end.
-/

namespace BitFont

/-! ## Names and values -/

/-- A name that is declared once has the value that it is declared with. -/
theorem Enumerator.value?_of_mem {constants : List Enumerator} {constant : Enumerator}
    (hnodup : (constants.map (·.name)).Nodup) (h : constant ∈ constants) :
    value? constants constant.name = some constant.value := by
  induction constants with
  | nil => simp at h
  | cons first rest ih =>
    rw [List.map_cons, List.nodup_cons] at hnodup
    obtain ⟨hfirst, hrest⟩ := hnodup
    rcases List.mem_cons.mp h with rfl | hmem
    · simp [value?]
    · have hne : (first.name == constant.name) = false := by
        rw [beq_eq_false_iff_ne]
        intro hsame
        apply hfirst
        rw [hsame]
        exact List.mem_map_of_mem hmem
      rw [value?, List.find?_cons, hne]
      exact ih hrest hmem

/-! ## Agreement -/

/-- What the constants of a header and the tables of a data file say about the glyph at an index. -/
structure AgreeOn (stem : String) (constants : List Enumerator) (tables : Tables) (i : Nat)
    (glyph : CompiledGlyph) : Prop where
  index : Enumerator.value? constants s!"{stem}_{glyph.entry.id}" = some i
  width :
    Enumerator.value? constants s!"{stem}_{glyph.entry.id}_WIDTH" = some glyph.definition.width
  height :
    Enumerator.value? constants s!"{stem}_{glyph.entry.id}_HEIGHT" = some glyph.definition.height
  offset : tables.offsets.cells[i]?.bind (Enumerator.value? constants) = some glyph.entry.offset
  size : tables.sizes.cells[i]?.bind (Enumerator.value? constants) = some glyph.entry.size
  bytes :
    (tables.stream.cells.drop glyph.entry.offset).take glyph.entry.size = glyph.encoded.bytes

/-- What they say about the font as a whole. Both tables of names have a cell for each glyph, and
the number between their brackets is the number of glyphs. -/
structure Agree (stem : String) (constants : List Enumerator) (tables : Tables)
    (font : Compilation) : Prop where
  count : Enumerator.value? constants s!"{stem}_NUM" = some font.glyphs.length
  offsetsBound : tables.offsets.bound = s!"{stem}_NUM"
  sizesBound : tables.sizes.bound = s!"{stem}_NUM"
  offsetsLength : tables.offsets.cells.length = font.glyphs.length
  sizesLength : tables.sizes.cells.length = font.glyphs.length
  stream : tables.stream.cells = font.payload
  glyphs : ∀ (i : Nat) (glyph : CompiledGlyph), font.glyphs[i]? = some glyph →
    AgreeOn stem constants tables i glyph

/-- The tables that are written for a font. -/
def Tables.ofCompilation (naming : Naming) (compilation : Compilation) : Tables :=
  { offsets :=
      { elementType := "short"
        name := naming.table "offset"
        bound := naming.count
        cells := compilation.glyphs.map fun glyph => naming.aspect glyph.entry.id .offset }
    sizes :=
      { elementType := "char"
        name := naming.table "size"
        bound := naming.count
        cells := compilation.glyphs.map fun glyph => naming.aspect glyph.entry.id .size }
    stream :=
      { elementType := "char"
        name := naming.table "data"
        bound := ""
        cells := compilation.payload } }

namespace Artifact

variable {naming : Naming} {font : Compilation}

theorem read?_generate_header (hstem : IsIdentifier naming.stem) (hfont : font.IsLaidOut) :
    Header.read? (header.generate naming font) =
      some (Header.ofCompilation naming font).constants :=
  (Header.isLegible_ofCompilation hstem hfont.ids).read?_text

theorem read?_generate_data (hstem : IsIdentifier naming.stem) (hfont : font.IsLaidOut) :
    Data.read? (data.generate naming font) = some (Tables.ofCompilation naming font) := by
  have hplaced : ∀ block ∈ (Data.ofCompilation naming font).blocks,
      block.written + block.bytes.length ≤ font.totalSize := by
    intro block hblock
    have hle := DataBlock.written_add_length_le hblock
    rwa [Nat.zero_add, ← hfont.payload, ← hfont.totalSize] at hle
  have hstream : (Data.ofCompilation naming font).blocks.flatMap (·.bytes) = font.payload := by
    rw [hfont.payload, Data.ofCompilation, DataBlock.flatMap_bytes_ofGlyphs]
  have hread := (Data.isLegible_ofCompilation hstem hfont.ids).read?_text hplaced
  rw [hstream] at hread
  exact hread

theorem mem_constants (naming : Naming) {glyph : CompiledGlyph} (h : glyph ∈ font.glyphs) :
    ∀ constant ∈ Header.ofGlyph naming glyph,
      constant ∈ (Header.ofCompilation naming font).constants := by
  intro constant hconstant
  exact List.mem_append_left _ (List.mem_flatMap.mpr ⟨glyph, h, hconstant⟩)

/-- Where all names are different, each leads to its own number. -/
theorem agree_of_nodup (hfont : font.IsLaidOut)
    (hnodup : ((Header.ofCompilation naming font).constants.map (·.name)).Nodup) :
    Agree naming.stem (Header.ofCompilation naming font).constants
      (Tables.ofCompilation naming font) font := by
  have hvalue {constant : Enumerator}
      (hmem : constant ∈ (Header.ofCompilation naming font).constants) :
      Enumerator.value? (Header.ofCompilation naming font).constants constant.name =
        some constant.value := Enumerator.value?_of_mem hnodup hmem
  have hcount : (Header.ofCompilation naming font).count ∈
      (Header.ofCompilation naming font).constants :=
    List.mem_append_right _ (List.mem_singleton_self _)
  refine ⟨?_, rfl, rfl, List.length_map .., List.length_map .., rfl, ?_⟩
  · rw [← hfont.length_layout]
    exact hvalue hcount
  · intro i glyph hi
    have hglyph : glyph ∈ font.glyphs := List.mem_of_getElem? hi
    have hindex := hfont.index i glyph hi
    obtain ⟨before, after, hpayload, hoffset, hsize⟩ := hfont.range glyph hglyph
    have hmem := mem_constants naming hglyph
    simp only [Header.ofGlyph, List.forall_mem_cons] at hmem
    obtain ⟨hi', hwidth, hheight, hoffset', hsize', -⟩ := hmem
    have hwidth' := hvalue hwidth
    have hheight' := hvalue hheight
    rw [Naming.aspect_eq] at hwidth' hheight'
    exact {
      index := by
        rw [← hindex]
        exact hvalue hi'
      width := hwidth'
      height := hheight'
      offset := by
        rw [Tables.ofCompilation, List.getElem?_map, hi]
        exact hvalue hoffset'
      size := by
        rw [Tables.ofCompilation, List.getElem?_map, hi]
        exact hvalue hsize'
      bytes := by
        rw [hoffset, hsize, Tables.ofCompilation, hpayload, List.drop_left, List.take_left] }

/-- The two files that are generated for a text are read back, and if no two names of the header are
equal, they agree with each other and with the font. -/
theorem agree_generate (text : String) {stem : String} (hstem : IsIdentifier stem) :
    let font := Compilation.ofText text
    ∃ constants tables,
      Header.read? (header.generate ⟨stem⟩ font) = some constants ∧
        Data.read? (data.generate ⟨stem⟩ font) = some tables ∧
        ((constants.map (·.name)).Nodup → Agree stem constants tables font) := by
  intro font
  have hfont : font.IsLaidOut := Compilation.isLaidOut_ofText text
  exact ⟨_, _, read?_generate_header hstem hfont, read?_generate_data hstem hfont,
    agree_of_nodup hfont⟩

/-- Identifiers with commas, braces and the marks of comments; the last glyph has no bytes. -/
theorem agree_generate_marks :
    let text := "ID a,\nDIM 2 8\nX\nID =\nID //\x7b\nDIM 3 8\n- X\nID \x7d;,\n"
    let font := Compilation.ofText text
    ∃ constants tables,
      Header.read? (header.generate ⟨"b_2"⟩ font) = some constants ∧
        Data.read? (data.generate ⟨"b_2"⟩ font) = some tables ∧
        (constants.map (·.name)).Nodup ∧ Agree "b_2" constants tables font := by
  intro text font
  have hstem : IsIdentifier "b_2" := by decide
  have hread : Header.read? (header.generate ⟨"b_2"⟩ font) =
      some (Header.ofCompilation ⟨"b_2"⟩ font).constants :=
    read?_generate_header hstem (Compilation.isLaidOut_ofText text)
  have hdistinct : ((Header.ofCompilation ⟨"b_2"⟩ font).constants.map (·.name)).Nodup := by
    decide +kernel
  obtain ⟨constants, tables, hheader, hdata, hagree⟩ := agree_generate text hstem
  have hsame : constants = (Header.ofCompilation ⟨"b_2"⟩ font).constants :=
    Option.some.inj (hheader.symm.trans hread)
  have hnodup : (constants.map (·.name)).Nodup := by
    rw [hsame]
    exact hdistinct
  exact ⟨constants, tables, hheader, hdata, hnodup, hagree hnodup⟩

end Artifact

end BitFont
