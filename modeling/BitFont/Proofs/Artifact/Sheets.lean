import BitFont.Artifact.Basic
import BitFont.Proofs.Artifact.Data
import BitFont.Proofs.Artifact.Rows
import BitFont.Proofs.Compilation.Invariant
import BitFont.Proofs.Text.Letters

/-!
# Sheets of cells

A data file is laid out in rows of cells, where a cell is a name or a byte and the comma behind it.
The file of a font is the sheet that its glyphs fill (`Data.lines_eq_lines_sheet`): whatever the
identifiers are, each of its lines is a row of cells or a line without any.
-/

namespace BitFont

open Text

/-! ## Sheets -/

/-- What a sheet has for one glyph in the table of bytes. -/
structure Sheet.Block where
  glyph : CompiledGlyph
  rows : List (List String)

/-- The rows of cells of a data file. -/
structure Sheet where
  offsets : List (List String)
  sizes : List (List String)
  blocks : List Sheet.Block

namespace Sheet

def nameLines (rows : List (List String)) : List String :=
  rows.map fun cells => Listing.indent ++ " ".intercalate cells

def byteLines (rows : List (List String)) : List String :=
  rows.map fun cells => Listing.indent ++ String.join cells

def tableLines (elementType name bound : String) (rows : List (List String)) : List String :=
  [s!"const {elementType} {name}[{bound}] = \x7b"] ++ nameLines rows ++ ["\x7d;", ""]

/-- One comment line, the rows of bytes, and one empty line. -/
def Block.lines (naming : Naming) (block : Block) : List String :=
  let entry := block.glyph.entry
  [Listing.indent ++
    s!"// {naming.typeName}: {entry.id}, offset {entry.offset}, size {entry.size}"] ++
  byteLines block.rows ++
  [""]

/-- The lines of a sheet for so many glyphs and bytes. -/
def lines (naming : Naming) (glyphs bytes : Nat) (sheet : Sheet) : List String :=
  let stream := naming.table "data"
  tableLines "unsigned short" (naming.table "offset") naming.count sheet.offsets ++
  tableLines "unsigned char" (naming.table "size") naming.count sheet.sizes ++
  [ s!"// {glyphs} glyphs.  Total data size {bytes} bytes.",
    "// This is run-length encoded.  One byte count, one byte value.  The exception is",
    "// a single 0 which represents one zero.",
    s!"const unsigned char {stream}[] = \x7b" ] ++
  sheet.blocks.flatMap (Block.lines naming) ++
  [ Listing.indent ++ "// End of list",
    "\x7d;" ]

/-- The cells of the table of bytes. -/
def bytes (sheet : Sheet) : List String := sheet.blocks.flatMap (·.rows.flatten)

def hexDigits : List Char :=
  ['0', '1', '2', '3', '4', '5', '6', '7', '8', '9', 'a', 'b', 'c', 'd', 'e', 'f']

/-- A byte as it is spelled in a cell, the high digit first. -/
def hexText (byte : UInt8) : String :=
  String.ofList
    ['0', 'x', hexDigits.getD (byte.toNat / 16) '0', hexDigits.getD (byte.toNat % 16) '0']

/-- The sheet of a font. In each of its tables the commas stand between neighbours, across rows and
glyphs: the last cell alone has none. -/
structure Fills (naming : Naming) (font : Compilation) (sheet : Sheet) : Prop where
  offsets : Listing.InRows 4
    (Listing.commaSeparated
      (font.glyphs.map fun glyph => s!"{naming.stem}_{glyph.entry.id}_OFFSET")) sheet.offsets
  sizes : Listing.InRows 4
    (Listing.commaSeparated
      (font.glyphs.map fun glyph => s!"{naming.stem}_{glyph.entry.id}_SIZE")) sheet.sizes
  glyphs : sheet.blocks.map (·.glyph) = font.glyphs
  rows : ∀ block ∈ sheet.blocks, Listing.InRows 16 block.rows.flatten block.rows ∧
    block.rows.flatten.length = block.glyph.entry.size
  bytes : sheet.bytes = Listing.commaSeparated (font.payload.map hexText)

end Sheet

/-! ## Filling a sheet -/

namespace Data

theorem byteText_eq_hexText (byte : UInt8) : byteText byte = Sheet.hexText byte := by
  have hdigit : ∀ n < 16, hexDigit n = Sheet.hexDigits.getD n '0' := by decide
  have hbyte : byte.toNat < 256 := byte.toNat_lt
  rw [byteText, Sheet.hexText, hdigit _ (by omega), hdigit _ (by omega)]

/-- The names of a table, row by row. -/
theorem nameLines_eq (names : List String) :
    nameLines names = Sheet.nameLines (Listing.chunks 4 (Listing.commaSeparated names)) := by
  rw [nameLines, namesPerLine, Listing.commaSeparated_chunks, List.map_map]
  rfl

/-- A byte with its position in a stream of some length. -/
def byteCell (totalSize : Nat) (item : UInt8 × Nat) : String :=
  byteText item.1 ++ if item.2 + 1 = totalSize then "" else ","

/-- The cells of a block. -/
def byteCells (totalSize : Nat) (block : DataBlock) : List String :=
  (block.bytes.zipIdx block.written).map (byteCell totalSize)

theorem byteLines_eq (totalSize : Nat) (block : DataBlock) :
    byteLines totalSize block =
      Sheet.byteLines (Listing.chunks 16 (byteCells totalSize block)) := by
  have hrows : (Listing.chunks 16 block.bytes).zipIdx.map
      (fun row => row.1.zipIdx (block.written + row.2 * 16)) =
        Listing.chunks 16 (block.bytes.zipIdx block.written) := by
    have hnumbered := Listing.map_zipIdx_chunks 15 block.bytes block.written 0
    rwa [Nat.zero_mul, Nat.add_zero] at hnumbered
  rw [byteLines, bytesPerLine, byteCells, Listing.chunks_map, ← hrows, Sheet.byteLines,
    List.map_map, List.map_map]
  rfl

/-- The sheet that a font fills. -/
def sheet (naming : Naming) (font : Compilation) : Sheet :=
  { offsets := Listing.chunks 4 (Listing.commaSeparated
      (font.glyphs.map fun glyph => naming.aspect glyph.entry.id .offset))
    sizes := Listing.chunks 4 (Listing.commaSeparated
      (font.glyphs.map fun glyph => naming.aspect glyph.entry.id .size))
    blocks := (DataBlock.ofGlyphs 0 font.glyphs).map fun block =>
      { glyph := block.glyph, rows := Listing.chunks 16 (byteCells font.totalSize block) } }

theorem fills_sheet (naming : Naming) (text : String) :
    (sheet naming (Compilation.ofText text)).Fills naming (Compilation.ofText text) where
  offsets := by
    simp only [sheet, Naming.aspect_eq]
    exact Listing.inRows_chunks 3 _
  sizes := by
    simp only [sheet, Naming.aspect_eq]
    exact Listing.inRows_chunks 3 _
  glyphs := by
    rw [sheet, List.map_map]
    exact DataBlock.map_glyph_ofGlyphs 0 _
  rows := by
    intro block hmem
    obtain ⟨block, hblock, rfl⟩ := List.mem_map.mp hmem
    have hglyph := DataBlock.glyph_mem_of_mem_ofGlyphs hblock
    obtain ⟨-, -, -, -, hsize⟩ := (Compilation.isLaidOut_ofText text).range block.glyph hglyph
    dsimp only
    rw [Listing.flatten_chunks, byteCells, List.length_map, List.length_zipIdx, hsize]
    exact ⟨Listing.inRows_chunks 15 _, rfl⟩
  bytes := by
    have hcells : Sheet.bytes (sheet naming (Compilation.ofText text)) =
        (Compilation.ofText text).payload.zipIdx.map
          (byteCell (Compilation.ofText text).totalSize) := by
      rw [(Compilation.isLaidOut_ofText text).payload, ← DataBlock.flatMap_zipIdx_ofGlyphs,
        Sheet.bytes, sheet, List.flatMap_map, List.map_flatMap]
      simp only [Listing.flatten_chunks]
      rfl
    rw [hcells, (Compilation.isLaidOut_ofText text).totalSize, Listing.commaSeparated_eq_zipIdx,
      List.length_map, List.zipIdx_map, List.map_map]
    apply List.map_congr_left
    intro item _
    rw [byteCell, byteText_eq_hexText]
    rfl

theorem tableLines_eq (data : Data) (table : NameTable) :
    data.tableLines table =
      Sheet.tableLines table.elementType table.name data.countName
        (Listing.chunks 4 (Listing.commaSeparated table.cells)) := by
  rw [tableLines, nameLines_eq, Sheet.tableLines]

theorem lines_eq_lines_sheet (naming : Naming) (text : String) :
    (ofCompilation naming (Compilation.ofText text)).lines =
      (sheet naming (Compilation.ofText text)).lines naming
        (Compilation.ofText text).glyphs.length (Compilation.ofText text).payload.length := by
  have hblocks : (ofCompilation naming (Compilation.ofText text)).blocks.flatMap
      (ofCompilation naming (Compilation.ofText text)).blockLines =
        (sheet naming (Compilation.ofText text)).blocks.flatMap (Sheet.Block.lines naming) := by
    rw [ofCompilation, sheet, List.flatMap_map]
    apply List.flatMap_congr
    intro block _
    rw [blockLines, byteLines_eq, Sheet.Block.lines]
    rfl
  have hcount : (ofCompilation naming (Compilation.ofText text)).blocks.length =
      (Compilation.ofText text).glyphs.length := by
    conv => rhs; rw [← DataBlock.map_glyph_ofGlyphs 0 (Compilation.ofText text).glyphs]
    exact (List.length_map _).symm
  have htotal : (ofCompilation naming (Compilation.ofText text)).totalSize =
      (Compilation.ofText text).payload.length := (Compilation.isLaidOut_ofText text).totalSize
  rw [lines, tableLines_eq, tableLines_eq, hblocks, hcount, htotal, Sheet.lines]
  rfl

/-! ## Reading the lines -/

theorem isUnbroken_ofCompilation {naming : Naming} {font : Compilation}
    (hstem : Lacks '\n' naming.stem) (hids : ∀ glyph ∈ font.glyphs, IsWord glyph.entry.id) :
    (ofCompilation naming font).IsUnbroken := by
  have htable (kind : String) (hkind : Lacks '\n' kind) : Lacks '\n' (naming.table kind) :=
    (hstem.asciiSmall.append (by decide)).append hkind
  have hid {glyph : CompiledGlyph} (hglyph : glyph ∈ font.glyphs) : Lacks '\n' glyph.entry.id :=
    (hids glyph hglyph).lacks (by decide)
  have hcells (aspect : Aspect) :
      ∀ cell ∈ font.glyphs.map fun glyph => naming.aspect glyph.entry.id aspect,
        Lacks '\n' cell := by
    intro cell hcell
    obtain ⟨glyph, hglyph, rfl⟩ := List.mem_map.mp hcell
    have hending : Lacks '\n' ("_" ++ aspect.ending) := by cases aspect <;> decide
    rw [Naming.aspect_eq]
    exact ((hstem.append (by decide)).append (hid hglyph)).append hending
  exact {
    offsetsType := (by decide : Lacks '\n' "unsigned short")
    sizesType := (by decide : Lacks '\n' "unsigned char")
    typeName := hstem.capitalized
    countName := hstem.append (by decide)
    offsetsName := htable "offset" (by decide)
    sizesName := htable "size" (by decide)
    dataName := htable "data" (by decide)
    offsetCells := hcells .offset
    sizeCells := hcells .size
    ids := fun block hblock => hid (DataBlock.glyph_mem_of_mem_ofGlyphs hblock) }

/-- The file of a font has the lines of a sheet and no others, as long as the stem is on one line.
The sheet has the glyphs in order. Its rows are full but for the last row of a table of names and
the last row of a glyph, and its commas stand between neighbours. -/
theorem lines_generate (text : String) {stem : String} (hstem : Lacks '\n' stem) :
    let font := Compilation.ofText text
    ∃ sheet : Sheet, Listing.lines (Artifact.data.generate ⟨stem⟩ font) =
        sheet.lines ⟨stem⟩ font.glyphs.length font.payload.length ++ [""] ∧
      sheet.Fills ⟨stem⟩ font := by
  intro font
  have hunbroken : (ofCompilation ⟨stem⟩ font).IsUnbroken :=
    isUnbroken_ofCompilation hstem (Compilation.isLaidOut_ofText text).ids
  refine ⟨sheet ⟨stem⟩ font, ?_, fills_sheet ⟨stem⟩ text⟩
  rw [← lines_eq_lines_sheet, ← Listing.lines_text hunbroken.lacks_newline_of_mem_lines]
  rfl

/-- The last byte stands in the glyph before the last one. -/
theorem lines_generate_empty_last_glyph :
    let text := "ID //\nDIM 17 8\n- X - X - X - X - X - X - X - X -\nID \x7d;\n"
    let font := Compilation.ofText text
    font.glyphs.map (·.entry.size) = [25, 0] ∧
      ∃ sheet : Sheet, Listing.lines (Artifact.data.generate ⟨"a b"⟩ font) =
          sheet.lines ⟨"a b"⟩ font.glyphs.length font.payload.length ++ [""] ∧
        sheet.Fills ⟨"a b"⟩ font := by
  intro text font
  have hstem : Lacks '\n' "a b" := by decide
  exact ⟨by decide +kernel, lines_generate text hstem⟩

end Data

end BitFont
