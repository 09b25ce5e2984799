import BitFont.Artifact.Data
import BitFont.Proofs.Artifact.Names
import BitFont.Proofs.Artifact.Reader
import Mathlib.Data.List.Basic

/-!
# Reading tables

The tables of a data file are read back cell by cell. The names of a table are its words, however
they are cut into lines; a line of bytes has the bytes between its blanks and commas, and a comment,
which names a glyph, has none.
-/

namespace BitFont

open Text

/-! ## Blocks -/

namespace DataBlock

@[simp] theorem map_glyph_ofGlyphs (written : Nat) (glyphs : List CompiledGlyph) :
    (ofGlyphs written glyphs).map (·.glyph) = glyphs := by
  induction glyphs generalizing written with
  | nil => rfl
  | cons glyph rest ih => rw [ofGlyphs, List.map_cons, ih]

theorem glyph_mem_of_mem_ofGlyphs {written : Nat} {glyphs : List CompiledGlyph}
    {block : DataBlock} (h : block ∈ ofGlyphs written glyphs) : block.glyph ∈ glyphs := by
  rw [← map_glyph_ofGlyphs written glyphs]
  exact List.mem_map_of_mem h

theorem flatMap_bytes_ofGlyphs (written : Nat) (glyphs : List CompiledGlyph) :
    (ofGlyphs written glyphs).flatMap (·.bytes) = glyphs.flatMap (·.encoded.bytes) := by
  conv => rhs; rw [← map_glyph_ofGlyphs written glyphs, List.flatMap_map]
  rfl

/-- No block ends behind the last byte. -/
theorem written_add_length_le {written : Nat} {glyphs : List CompiledGlyph} {block : DataBlock}
    (h : block ∈ ofGlyphs written glyphs) :
    block.written + block.bytes.length ≤
      written + (glyphs.flatMap (·.encoded.bytes)).length := by
  induction glyphs generalizing written with
  | nil => contradiction
  | cons glyph rest ih =>
    rw [List.flatMap_cons, List.length_append]
    rcases List.mem_cons.mp h with rfl | hrest
    · exact Nat.add_le_add_left (Nat.le_add_right _ _) written
    · have hle := ih hrest
      omega

/-- To count on from block to block is to number the whole stream. -/
theorem flatMap_zipIdx_ofGlyphs (written : Nat) (glyphs : List CompiledGlyph) :
    (ofGlyphs written glyphs).flatMap (fun block => block.bytes.zipIdx block.written) =
      (glyphs.flatMap (·.encoded.bytes)).zipIdx written := by
  induction glyphs generalizing written with
  | nil => rfl
  | cons glyph rest ih =>
    rw [ofGlyphs, List.flatMap_cons, ih, List.flatMap_cons, List.zipIdx_append]
    rfl

end DataBlock

/-! ## Headings -/

namespace Table

variable {kind name bound : String}

theorem isWord_declarator (hname : IsIdentifier name) (hbound : IsIdentifier bound) :
    IsWord (name ++ "[" ++ bound ++ "]") := by
  refine ⟨?_, ?_⟩
  · intro hempty
    have hbracket := (String.append_eq_empty_iff.mp hempty).2
    contradiction
  · exact ((hname.noBlanks.append (by decide)).append hbound.noBlanks).append (by decide)

theorem head?_heading (hkind : IsWord kind) (hname : IsIdentifier name)
    (hbound : IsIdentifier bound) :
    Declaration.head? ("const unsigned " ++ kind ++ " " ++ name ++ "[" ++ bound ++ "] = \x7b") =
      some ["const", "unsigned", kind, name ++ "[" ++ bound ++ "]", "="] := by
  have hline : "const unsigned " ++ kind ++ " " ++ name ++ "[" ++ bound ++ "] = \x7b" =
      "const unsigned" ++ " " ++ kind ++ " " ++ (name ++ "[" ++ bound ++ "]") ++ " " ++ "= " ++
        "\x7b" := by
    simp [String.append_assoc]
  rw [hline, Declaration.head?_append_brace, words_append_space, words_append_space,
    words_append_space, words_of_isWord hkind, words_of_isWord (isWord_declarator hname hbound)]
  rfl

theorem declarator?_brackets (hname : IsIdentifier name) (hbound : IsIdentifier bound) :
    declarator? (name ++ "[" ++ bound ++ "]") = some (name, bound) := by
  have hplain {text : String} (htext : IsIdentifier text) :
      fields (fun c => c == '[' || c == ']') text.toList = [text.toList] := by
    apply fields_of_forall
    intro c hc
    have hopen : c ≠ '[' := bne_iff_ne.mp (htext.lacks (by decide) c hc)
    have hclose : c ≠ ']' := bne_iff_ne.mp (htext.lacks (by decide) c hc)
    simp [hopen, hclose]
  have hchars : (name ++ "[" ++ bound ++ "]").toList =
      name.toList ++ '[' :: (bound.toList ++ ']' :: []) := by
    simp [String.toList_append]
  rw [declarator?, hchars, fields_append_cons _ rfl, fields_append_cons _ rfl, hplain hname,
    hplain hbound]
  simp

/-- A table is read from its heading and its cells. -/
theorem read?_heading {α : Type} (hname : IsIdentifier name) (hbound : IsIdentifier bound)
    (cells? : List String → Option (List α)) (body : List String) :
    read? cells? { head := ["const", "unsigned", kind, name ++ "[" ++ bound ++ "]", "="], body } =
      (cells? body).map fun cells => { elementType := kind, name, bound, cells } := by
  have hdeclarator := declarator?_brackets hname hbound
  simp only [read?, hdeclarator]
  cases cells? body <;> rfl

end Table

/-! ## Tables of names -/

namespace Data

theorem words_nameLines {names : List String} (h : ∀ name ∈ names, IsWord name) :
    (nameLines names).flatMap words = Listing.commaSeparated names := by
  have hgroups : ∀ group ∈ Listing.chunks namesPerLine names, ∀ name ∈ group, IsWord name := by
    intro group hgroup name hname
    apply h
    rw [← Listing.flatten_chunks namesPerLine names]
    exact List.mem_flatten.mpr ⟨group, hgroup, hname⟩
  have hindent (line : String) : words (Listing.indent ++ line) = words line :=
    words_append_of_blank Listing.isBlank_indent line
  have hwords := Listing.words_commaSeparated_intercalate
    (fun _ hgroup => Listing.ne_nil_of_mem_chunks hgroup) hgroups
  rw [Listing.flatten_chunks] at hwords
  rw [nameLines, List.flatMap_map, ← hwords]
  simp only [hindent]

theorem nameCells?_nameLines {names : List String} (h : ∀ name ∈ names, IsWord name) :
    Table.nameCells? (nameLines names) = some names := by
  rw [Table.nameCells?, words_nameLines h, Listing.separated?_commaSeparated]

/-! ## Bytes -/

theorem hexValue?_hexDigit {n : Nat} (h : n < 16) : Table.hexValue? (hexDigit n) = some n := by
  have hall : ∀ n < 16, Table.hexValue? (hexDigit n) = some n := by decide
  exact hall n h

theorem byte?_byteText (byte : UInt8) : Table.byte? (byteText byte).toList = some byte := by
  have hbyte : byte.toNat < 256 := byte.toNat_lt
  have hhigh := hexValue?_hexDigit (n := byte.toNat / 16) (by omega)
  have hlow := hexValue?_hexDigit (n := byte.toNat % 16) (by omega)
  have hvalue : 16 * (byte.toNat / 16) + byte.toNat % 16 = byte.toNat := by omega
  rw [byteText, String.toList_ofList, Table.byte?, hhigh, hlow]
  dsimp only [bind, Option.bind, pure]
  rw [hvalue, UInt8.ofNat_toNat]

/-- What separates the bytes of a line. -/
theorem not_separates_byteText (byte : UInt8) :
    ∀ c ∈ (byteText byte).toList, (isBlank c || c == ',') = false := by
  have hall : ∀ n < 16, (isBlank (hexDigit n) || hexDigit n == ',') = false := by decide
  have hbyte : byte.toNat < 256 := byte.toNat_lt
  have hhigh := hall (byte.toNat / 16) (by omega)
  have hlow := hall (byte.toNat % 16) (by omega)
  intro c hc
  rw [byteText, String.toList_ofList] at hc
  simp only [List.mem_cons, List.not_mem_nil, or_false] at hc
  rcases hc with rfl | rfl | rfl | rfl
  · decide
  · decide
  · exact hhigh
  · exact hlow

/-- The characters of bytes from a position of the stream on. -/
def byteChars (totalSize position : Nat) : List UInt8 → List Char
  | [] => []
  | byte :: rest =>
    (byteText byte).toList ++
      ((if position + 1 = totalSize then [] else [',']) ++
        byteChars totalSize (position + 1) rest)

theorem toList_byteLine (totalSize position : Nat) (bytes : List UInt8) :
    (byteLine totalSize position bytes).toList =
      Listing.indent.toList ++ byteChars totalSize position bytes := by
  rw [byteLine, String.toList_append, String.toList_join, List.flatMap_map]
  congr 1
  induction bytes generalizing position with
  | nil => rfl
  | cons byte rest ih =>
    rw [List.zipIdx_cons, List.flatMap_cons, ih, byteChars, String.toList_append, List.append_assoc]
    split <;> rfl

theorem pieces_byteLine {totalSize position : Nat} {bytes : List UInt8}
    (h : position + bytes.length ≤ totalSize) :
    Table.pieces (byteLine totalSize position bytes) =
      bytes.map fun byte => (byteText byte).toList := by
  have hindent : Only (fun c => isBlank c || c == ',') Listing.indent := by decide
  rw [Table.pieces, toList_byteLine, runs_append_of_forall hindent]
  induction bytes generalizing position with
  | nil => rfl
  | cons byte rest ih =>
    have hbyte : runs (fun c => isBlank c || c == ',') (byteText byte).toList =
        [(byteText byte).toList] := by
      apply runs_of_forall _ (not_separates_byteText byte)
      simp [byteText]
    rw [List.length_cons] at h
    rw [byteChars, List.map_cons]
    by_cases hlast : position + 1 = totalSize
    · -- The byte without a comma is the last one of its line.
      obtain rfl : rest = [] := List.length_eq_zero_iff.mp (by omega)
      rw [if_pos hlast, byteChars, List.append_nil, List.append_nil, hbyte, List.map_nil]
    · rw [if_neg hlast, List.singleton_append, runs_append_cons _ (by decide), hbyte,
        ih (by omega), List.singleton_append]

theorem isComment_byteLine (totalSize position : Nat) (bytes : List UInt8) :
    Table.isComment (byteLine totalSize position bytes) = false := by
  have hindent : Listing.indent.toList = [' ', ' ', ' ', ' '] := by decide
  rw [Table.isComment, toList_byteLine, hindent]
  cases bytes with
  | nil =>
    rw [byteChars]
    decide
  | cons byte rest =>
    rw [byteChars, byteText, String.toList_ofList]
    rfl

/-! ## The stream -/

/-- The lines between the braces of the stream. -/
def streamBody (data : Data) : List String :=
  data.blocks.flatMap data.blockLines ++ [Listing.indent ++ "// End of list"]

/-- The comment that names the glyph of a block. -/
def blockComment (data : Data) (entry : Layout.Entry) : String :=
  "// " ++ (data.typeName ++ ": " ++ entry.id ++ ", offset " ++ toString entry.offset ++
    ", size " ++ toString entry.size)

theorem blockLines_eq (data : Data) (block : DataBlock) :
    data.blockLines block =
      (Listing.indent ++ data.blockComment block.entry) ::
        (byteLines data.totalSize block ++ [""]) := by
  have hcomment : data.blockComment block.entry =
      "// " ++ data.typeName ++ ": " ++ block.entry.id ++ ", offset " ++
        toString block.entry.offset ++ ", size " ++ toString block.entry.size := by
    simp only [blockComment, String.append_assoc]
  rw [hcomment]
  rfl

theorem isComment_blockComment (data : Data) (entry : Layout.Entry) :
    Table.isComment (Listing.indent ++ data.blockComment entry) = true := by
  rw [Table.isComment, blockComment, String.toList_append, String.toList_append]
  rfl

theorem length_chunk_le {bytes chunk : List UInt8} {row : Nat}
    (h : (chunk, row) ∈ (Listing.chunks bytesPerLine bytes).zipIdx) :
    row * bytesPerLine + chunk.length ≤ bytes.length := by
  rw [List.mem_zipIdx_iff_getElem?] at h
  dsimp only [bytesPerLine] at h ⊢
  rw [Listing.getElem?_chunks 15] at h
  split at h
  · obtain rfl := Option.some.inj h
    rw [List.length_take, List.length_drop]
    omega
  · contradiction

theorem pieces_byteLines {totalSize : Nat} {block : DataBlock}
    (h : block.written + block.bytes.length ≤ totalSize) :
    (byteLines totalSize block).flatMap Table.pieces =
      block.bytes.map fun byte => (byteText byte).toList := by
  have hline : ∀ line ∈ (Listing.chunks bytesPerLine block.bytes).zipIdx,
      Table.pieces (byteLine totalSize (block.written + line.2 * bytesPerLine) line.1) =
        line.1.map fun byte => (byteText byte).toList := by
    intro line hmem
    have hlength := length_chunk_le hmem
    apply pieces_byteLine
    omega
  have hchunks : (Listing.chunks bytesPerLine block.bytes).zipIdx.flatMap (·.1) = block.bytes := by
    rw [List.flatMap_def, List.zipIdx_map_fst, Listing.flatten_chunks]
  rw [byteLines, List.flatMap_map]
  conv => rhs; rw [← hchunks, List.map_flatMap]
  exact List.flatMap_congr hline

/-- The comment of a block has no bytes, and neither has the empty line behind it. -/
theorem pieces_blockLines {data : Data} {block : DataBlock}
    (h : block.written + block.bytes.length ≤ data.totalSize) :
    ((data.blockLines block).filter fun line => !Table.isComment line).flatMap Table.pieces =
      block.bytes.map fun byte => (byteText byte).toList := by
  have hbytes : (byteLines data.totalSize block).filter (fun line => !Table.isComment line) =
      byteLines data.totalSize block := by
    rw [List.filter_eq_self]
    intro line hline
    obtain ⟨chunk, -, rfl⟩ := List.mem_map.mp hline
    rw [isComment_byteLine]
    rfl
  have hempty : [""].filter (fun line => !Table.isComment line) = [""] := by decide
  have hcomment :
      ¬ (!Table.isComment (Listing.indent ++ data.blockComment block.entry)) = true := by
    rw [isComment_blockComment]
    decide
  rw [blockLines_eq, List.filter_cons, if_neg hcomment, List.filter_append, hbytes, hempty,
    List.flatMap_append, pieces_byteLines h, List.flatMap_singleton]
  exact List.append_nil _

theorem byteCells?_streamBody {data : Data}
    (h : ∀ block ∈ data.blocks, block.written + block.bytes.length ≤ data.totalSize) :
    Table.byteCells? data.streamBody = some (data.blocks.flatMap (·.bytes)) := by
  have hend : [Listing.indent ++ "// End of list"].filter (fun line => !Table.isComment line) =
      [] := by
    decide
  have hpieces : (data.streamBody.filter fun line => !Table.isComment line).flatMap Table.pieces =
      (data.blocks.flatMap (·.bytes)).map fun byte => (byteText byte).toList := by
    rw [streamBody, List.filter_append, hend, List.append_nil, List.filter_flatMap,
      List.flatMap_assoc, List.map_flatMap]
    apply List.flatMap_congr
    intro block hblock
    exact pieces_blockLines (h block hblock)
  rw [Table.byteCells?, hpieces]
  apply mapM_map_eq_some
  intro byte _
  exact byte?_byteText byte

end Data

end BitFont
