import BitFont.Glyph.Printer
import BitFont.Proofs.Artifact.Names
import BitFont.Proofs.Definitions.Diagnostics
import BitFont.Proofs.Definitions.Extents
import BitFont.Proofs.Text.Lines
import Mathlib.Data.List.TakeWhile

/-!
# Printed glyphs

Well-formed glyphs are read back as they were printed. The words of the printed lines are known
(`map_words_lines`), and lines with these words are a block without problems that defines the glyph
(`exists_block`); blocks of different identifiers do not touch each other
(`untraced_ofText_of_nodup`). Conversely a block without problems defines a well-formed glyph, so
what was read without a diagnostic can be printed.
-/

namespace BitFont

/-! ## Blocks of different identifiers -/

namespace Definitions

theorem addBlock_of_new {found : Definitions} {block : Block}
    (h : block.id ∉ found.glyphs.toList.map (·.id)) :
    found.addBlock block =
      { glyphs := found.glyphs.push block.glyph
        diagnostics := found.diagnostics ++ block.problems
        notices := found.notices } := by
  have hany : ¬ found.glyphs.any (·.id == block.glyph.id) = true := by
    rw [← Array.any_toList, List.any_eq_true]
    rintro ⟨old, hold, hid⟩
    exact h (List.mem_map.mpr ⟨old, hold, beq_iff_eq.mp hid⟩)
  rw [addBlock, close, report_report, Block.problems_draft, Block.glyph_draft, define, report,
    ← Block.problems, if_neg hany]

theorem foldl_addBlock_of_nodup {found : Definitions} {blocks : List Block}
    (h : (found.glyphs.toList.map (·.id) ++ blocks.map (·.id)).Nodup) :
    blocks.foldl addBlock found =
      { glyphs := found.glyphs ++ blocks.map Block.glyph
        diagnostics := found.diagnostics ++ blocks.flatMap Block.problems
        notices := found.notices } := by
  induction blocks generalizing found with
  | nil => simp
  | cons block rest ih =>
    have hnew : block.id ∉ found.glyphs.toList.map (·.id) := fun hold =>
      (List.nodup_append.mp h).2.2 _ hold block.id (by simp) rfl
    have hrest : ((found.addBlock block).glyphs.toList.map (·.id) ++ rest.map (·.id)).Nodup := by
      rw [addBlock_of_new hnew, Array.toList_push, List.map_append, List.append_assoc]
      exact h
    rw [List.foldl_cons, ih hrest, addBlock_of_new hnew]
    simp [appendList_append]

/-- A text that defines no identifier twice has the glyphs of its blocks, and nothing is noticed. -/
theorem untraced_ofText_of_nodup {text : String}
    (h : ((Outline.ofText text).blocks.map (·.id)).Nodup) :
    (ofText text).untraced =
      { glyphs := ((Outline.ofText text).blocks.map Block.glyph).toArray
        diagnostics := (Outline.ofText text).problems.toArray } := by
  have hstart : ((report {} (Outline.ofText text).strays).glyphs.toList.map (·.id) ++
      (Outline.ofText text).blocks.map (·.id)).Nodup := h
  rw [untraced_ofText, foldl_addBlock_of_nodup hstart]
  simp [report, Outline.problems]

end Definitions

/-! ## Printed lines -/

theorem Row.fit_of_size {bits : Array Bool} {width : Nat} (h : bits.size = width) :
    Row.fit bits width = ⟨bits⟩ := by
  subst h
  simp [fit]

theorem isWord_pixelWord (pixel : Bool) : Text.IsWord (pixelWord pixel) := by
  cases pixel <;> exact ⟨by decide, by decide⟩

theorem pixelOfWord_pixelWord (pixel : Bool) :
    Statement.pixelOfWord (pixelWord pixel) = pixel := by
  cases pixel <;> rfl

namespace Row

/-- The words of the printed row. -/
def words (row : Row) : List String := row.bits.toList.map pixelWord

theorem words_line (row : Row) : Text.words row.line = row.words := by
  apply Text.words_intercalate_space
  intro word hword
  obtain ⟨pixel, -, rfl⟩ := List.mem_map.mp hword
  exact isWord_pixelWord pixel

theorem lacks_line (row : Row) : Text.Lacks '\n' row.line := by
  apply Text.Only.intercalate (by decide)
  intro word hword
  obtain ⟨pixel, -, rfl⟩ := List.mem_map.mp hword
  exact (isWord_pixelWord pixel).lacks (by decide)

theorem map_pixelOfWord_words (row : Row) :
    row.words.map Statement.pixelOfWord = row.bits.toList := by
  rw [words, List.map_map]
  exact List.map_id'' pixelOfWord_pixelWord _

/-- A printed row begins with a pixel, which no directive or comment does. -/
theorem statement_words {row : Row} (h : 0 < row.width) :
    Statement.ofWords row.words = .row row.bits.toList := by
  rw [← map_pixelOfWord_words, words]
  cases hbits : row.bits.toList with
  | nil => simp [width, ← Array.length_toList, hbits] at h
  | cons pixel rest =>
    cases pixel <;> simp [Statement.ofWords, Statement.isComment, pixelWord]

end Row

/-! ## Printed sizes -/

namespace Statement

theorem readMeasure_toString (measure : Measure) {value : Nat} (hpos : 0 < value)
    (hle : value ≤ Numeral.limit) (rest : List String) :
    readMeasure measure (toString value :: rest) = .ok (value, rest) := by
  obtain ⟨pred, rfl⟩ := Nat.exists_eq_add_of_lt hpos
  rw [readMeasure, Numeral.read_toString hle]
  rfl

theorem ofMeasures_toString {width height : Nat} (h : IsExtent width height) :
    ofMeasures [toString width, toString height] = .dimensions width height := by
  rw [ofMeasures, readMeasure_toString .width h.width_pos h.width_le]
  dsimp only
  rw [readMeasure_toString .height h.height_pos h.height_le]

end Statement

namespace Glyph

/-- The words of the printed lines. -/
def words (glyph : Glyph) : List (List String) :=
  ["ID", glyph.id] :: ["DIM", toString glyph.width, toString glyph.height] ::
    glyph.rows.toList.map Row.words

namespace WellFormed

variable {glyph : Glyph}

theorem isWord (h : glyph.WellFormed) : Text.IsWord glyph.id := by
  refine ⟨h.id_ne_empty, ?_⟩
  intro c hc
  simpa using h.not_isBlank_of_mem_id c hc

theorem isExtent (h : glyph.WellFormed) : IsExtent glyph.width glyph.height :=
  ⟨h.width_pos, h.width_le, h.height_pos, h.height_le⟩

instance (glyph : Glyph) : Decidable glyph.WellFormed :=
  decidable_of_iff
    ((glyph.id ≠ "" ∧ glyph.id.toList.all fun c => Text.isBlank c = false) ∧
      (0 < glyph.width ∧ glyph.width ≤ Numeral.limit) ∧
      (0 < glyph.height ∧ glyph.height ≤ Numeral.limit ∧ glyph.height % bandHeight = 0) ∧
      glyph.rows.size = glyph.height ∧ ∀ row ∈ glyph.rows, row.width = glyph.width)
    ⟨fun ⟨⟨hne, hblank⟩, ⟨hpos, hle⟩, ⟨hpos', hle', hband⟩, hsize, hrows⟩ =>
        ⟨hne, by simpa using hblank, hpos, hle, hpos', hle', hband, hsize, hrows⟩,
      fun h =>
        ⟨⟨h.id_ne_empty, by simpa using h.not_isBlank_of_mem_id⟩, ⟨h.width_pos, h.width_le⟩,
          ⟨h.height_pos, h.height_le, h.height_mod⟩, h.size_rows, h.width_of_mem_rows⟩⟩

theorem map_words_lines (h : glyph.WellFormed) : glyph.lines.map Text.words = glyph.words := by
  have hid : Text.words ("ID" ++ " " ++ glyph.id) = ["ID", glyph.id] := by
    rw [Text.words_append_space, Text.words_of_isWord h.isWord]
    rfl
  have hsize : Text.words ("DIM" ++ " " ++ toString glyph.width ++ " " ++ toString glyph.height) =
      ["DIM", toString glyph.width, toString glyph.height] := by
    rw [Text.words_append_space, Text.words_append_space,
      Text.words_of_isWord (isWord_toString glyph.width),
      Text.words_of_isWord (isWord_toString glyph.height)]
    rfl
  have hrows : (glyph.rows.toList.map Row.line).map Text.words =
      glyph.rows.toList.map Row.words := by
    rw [List.map_map]
    exact List.map_congr_left fun row _ => row.words_line
  rw [lines, List.map_append, hrows, words, ← hid, ← hsize]
  rfl

theorem lacks_of_mem_lines (h : glyph.WellFormed) {line : String} (hline : line ∈ glyph.lines) :
    Text.Lacks '\n' line := by
  have hblank : Text.isBlank '\n' = true := by decide
  rw [lines, List.mem_append, List.mem_cons, List.mem_singleton, List.mem_map] at hline
  rcases hline with (rfl | rfl) | ⟨row, -, rfl⟩
  · have hhead : Text.Lacks '\n' "ID " := by decide
    exact hhead.append (h.isWord.lacks hblank)
  · have hhead : Text.Lacks '\n' "DIM " := by decide
    have hgap : Text.Lacks '\n' " " := by decide
    exact ((hhead.append ((isWord_toString _).lacks hblank)).append hgap).append
      ((isWord_toString _).lacks hblank)
  · exact row.lacks_line

end WellFormed

end Glyph

/-! ## Printed blocks -/

namespace Block

variable {block : Block} {declaration : Line} {rowLines : List Line} {width height : Nat}

theorem dimensions_of_body (hbody : block.body = declaration :: rowLines)
    (hsize : declaration.statement = .dimensions width height)
    (hrows : ∀ line ∈ rowLines, ∃ bits, line.statement = .row bits) :
    block.dimensions = some (width, height) := by
  have hnone : rowLines.filterMap Line.dimensions? = [] := by
    rw [List.filterMap_eq_nil_iff]
    intro line hline
    obtain ⟨bits, hbits⟩ := hrows line hline
    rw [Line.dimensions?, hbits]
  have hsome : declaration.dimensions? = some (width, height) := by
    rw [Line.dimensions?, hsize]
  rw [dimensions, hbody, List.filterMap_cons_some hsome, hnone]
  rfl

theorem rowLines_of_body (hbody : block.body = declaration :: rowLines)
    (hsize : declaration.statement = .dimensions width height)
    (hrows : ∀ line ∈ rowLines, ∃ bits, line.statement = .row bits) :
    block.rowLines = rowLines := by
  have hall : ∀ line ∈ rowLines, line.isRow = true := by
    intro line hline
    obtain ⟨bits, hbits⟩ := hrows line hline
    rw [Line.isRow, hbits]
  have hno : ¬ declaration.isRow = true := by
    rw [Line.isRow, hsize]
    exact Bool.false_ne_true
  rw [Block.rowLines, hbody, List.filter_cons_of_neg hno, List.filter_eq_self.mpr hall]

theorem sound_of_body (hbody : block.body = declaration :: rowLines)
    (hsize : declaration.statement = .dimensions width height) (hband : height % 8 = 0)
    (hrows : ∀ line ∈ rowLines, ∃ bits, line.statement = .row bits)
    (hwide : ∀ line ∈ rowLines, width ≤ line.words.length) (hcount : rowLines.length = height) :
    block.Sound := by
  have hbodyLine : ∀ line ∈ block.body,
      line.statement = .dimensions width height ∨ ∃ bits, line.statement = .row bits := by
    rw [hbody, List.forall_mem_cons]
    exact ⟨.inl hsize, fun line hline => .inr (hrows line hline)⟩
  refine ⟨?_, ?_, width, height, dimensions_of_body hbody hsize hrows, ?_⟩
  · intro line hline fault
    rcases hbodyLine line hline with hline | ⟨bits, hline⟩ <;> simp [hline]
  · intro line hline width' height' hdimensions
    rcases hbodyLine line hline with hline | ⟨bits, hline⟩
    · obtain ⟨-, rfl⟩ := Statement.dimensions.inj (hline.symm.trans hdimensions)
      exact hband
    · rw [hline] at hdimensions
      contradiction
  · rw [rowLines_of_body hbody hsize hrows]
    exact ⟨hwide, hcount⟩

/-- Lines with the words of printed rows stand for these rows. -/
theorem map_row_of_words {rows : List Row} (hwords : rowLines.map Line.words = rows.map Row.words)
    (hwidth : ∀ row ∈ rows, row.width = width) : rowLines.map (row width) = rows := by
  have hfit (line : Line) :
      row width line = Row.fit (line.words.map Statement.pixelOfWord).toArray width :=
    (fit_draftRow width line).symm
  calc rowLines.map (row width)
      = (rowLines.map Line.words).map fun words =>
          Row.fit (words.map Statement.pixelOfWord).toArray width := by
        rw [List.map_map]
        exact List.map_congr_left fun line _ => hfit line
    _ = rows.map fun row => Row.fit (row.words.map Statement.pixelOfWord).toArray width := by
        rw [hwords, List.map_map]
        rfl
    _ = rows.map fun row => row := by
        apply List.map_congr_left
        intro row hrow
        rw [Row.map_pixelOfWord_words, Array.toArray_toList]
        exact Row.fit_of_size (hwidth row hrow)
    _ = rows := List.map_id' rows

end Block

namespace Glyph

variable {glyph : Glyph}

/-- A line with the words of a printed row. -/
theorem WellFormed.statement_of_words (h : glyph.WellFormed) {line : Line}
    (hline : line.words ∈ glyph.rows.toList.map Row.words) :
    line.words.length = glyph.width ∧ ∃ bits, line.statement = .row bits := by
  obtain ⟨row, hrow, hwords⟩ := List.mem_map.mp hline
  have hwidth : row.width = glyph.width := h.width_of_mem_rows row (Array.mem_toList_iff.mp hrow)
  have hwide : 0 < row.width := by
    rw [hwidth]
    exact h.width_pos
  refine ⟨?_, row.bits.toList, ?_⟩
  · rw [← hwords, Row.words, List.length_map, Array.length_toList]
    exact hwidth
  · rw [← Row.statement_words hwide, hwords]
    rfl

/-- Lines with the words of a printed glyph are a block of their own that defines the glyph. -/
theorem WellFormed.exists_block (h : glyph.WellFormed) {lines : List Line}
    (hwords : lines.map Line.words = glyph.words) :
    ∃ block : Block, block.lines = lines ∧ block.glyph = glyph ∧ block.Sound ∧
      ∀ line ∈ lines, line.statement ≠ .finish := by
  obtain ⟨opening, body, rfl, hopening, hbody⟩ := List.map_eq_cons_iff.mp hwords
  obtain ⟨declaration, rowLines, rfl, hdeclaration, hrows⟩ := List.map_eq_cons_iff.mp hbody
  have hid : opening.statement = .glyph glyph.id := by
    change Statement.ofWords opening.words = _
    rw [hopening, Statement.ofWords_id]
  have hsize : declaration.statement = .dimensions glyph.width glyph.height := by
    change Statement.ofWords declaration.words = _
    rw [hdeclaration, Statement.ofWords_dim, Statement.ofMeasures_toString h.isExtent]
  have hrow : ∀ line ∈ rowLines,
      line.words.length = glyph.width ∧ ∃ bits, line.statement = .row bits := by
    intro line hline
    apply h.statement_of_words
    rw [← hrows]
    exact List.mem_map_of_mem hline
  have hpixels : ∀ line ∈ rowLines, ∃ bits, line.statement = .row bits :=
    fun line hline => (hrow line hline).2
  have hopened : ∀ line ∈ declaration :: rowLines, line.opened? = none := by
    rw [List.forall_mem_cons]
    refine ⟨by rw [Line.opened?, hsize], ?_⟩
    intro line hline
    obtain ⟨bits, hbits⟩ := hpixels line hline
    rw [Line.opened?, hbits]
  have hcount : rowLines.length = glyph.height := by
    rw [← h.size_rows, ← Array.length_toList, ← List.length_map Line.words, hrows,
      List.length_map]
  let block : Block :=
    { id := glyph.id
      opening
      body := declaration :: rowLines
      opened := by rw [Line.opened?, hid]
      opened_body := hopened }
  have hdimensions : block.dimensions = some (glyph.width, glyph.height) :=
    Block.dimensions_of_body rfl hsize hpixels
  have hrowLines : block.rowLines = rowLines := Block.rowLines_of_body rfl hsize hpixels
  refine ⟨block, rfl, ?_, ?_, ?_⟩
  · have hmap : rowLines.map (Block.row glyph.width) = glyph.rows.toList :=
      Block.map_row_of_words hrows fun row hmem =>
        h.width_of_mem_rows row (Array.mem_toList_iff.mp hmem)
    rw [Block.glyph, Block.extent, hdimensions, hrowLines]
    simp only [Option.getD_some, hmap, Array.toArray_toList]
    rfl
  · exact Block.sound_of_body rfl hsize h.height_mod hpixels
      (fun line hline => Nat.le_of_eq (hrow line hline).1.symm) hcount
  · rw [List.forall_mem_cons, List.forall_mem_cons, hid, hsize]
    refine ⟨by simp, by simp, ?_⟩
    intro line hline
    obtain ⟨bits, hbits⟩ := hpixels line hline
    simp [hbits]

theorem exists_blocks {glyphs : List Glyph} (h : ∀ glyph ∈ glyphs, glyph.WellFormed)
    {lines : List Line} (hwords : lines.map Line.words = glyphs.flatMap words) :
    ∃ blocks : List Block, blocks.flatMap Block.lines = lines ∧
      blocks.map Block.glyph = glyphs ∧ (∀ block ∈ blocks, block.Sound) ∧
      ∀ line ∈ lines, line.statement ≠ .finish := by
  induction glyphs generalizing lines with
  | nil =>
    obtain rfl : lines = [] := List.map_eq_nil_iff.mp hwords
    exact ⟨[], rfl, rfl, by simp, by simp⟩
  | cons glyph rest ih =>
    obtain ⟨hglyph, hrest⟩ := List.forall_mem_cons.mp h
    rw [List.flatMap_cons, List.map_eq_append_iff] at hwords
    obtain ⟨lines, others, rfl, hlines, hothers⟩ := hwords
    obtain ⟨block, rfl, rfl, hsound, hfinish⟩ := hglyph.exists_block hlines
    obtain ⟨blocks, rfl, rfl, hsounds, hfinishes⟩ := ih hrest hothers
    exact ⟨block :: blocks, rfl, rfl, List.forall_mem_cons.mpr ⟨hsound, hsounds⟩,
      List.forall_mem_append.mpr ⟨hfinish, hfinishes⟩⟩

theorem map_words_ofText_print {glyphs : List Glyph} (h : ∀ glyph ∈ glyphs, glyph.WellFormed) :
    (Line.ofText (print glyphs)).map Line.words = glyphs.flatMap words := by
  have hlacks : ∀ line ∈ glyphs.flatMap lines, Text.Lacks '\n' line := by
    intro line hline
    obtain ⟨glyph, hglyph, hline⟩ := List.mem_flatMap.mp hline
    exact (h glyph hglyph).lacks_of_mem_lines hline
  calc (Line.ofText (print glyphs)).map Line.words
      = (glyphs.flatMap lines).map Text.words := Line.map_words_ofText_join hlacks
    _ = glyphs.flatMap fun glyph => glyph.lines.map Text.words := List.map_flatMap
    _ = glyphs.flatMap words := by
        rw [List.flatMap_def, List.flatMap_def]
        exact congrArg List.flatten
          (List.map_congr_left fun glyph hglyph => (h glyph hglyph).map_words_lines)

end Glyph

/-- The blocks of printed glyphs. -/
theorem Outline.exists_ofText_print {glyphs : List Glyph}
    (h : ∀ glyph ∈ glyphs, glyph.WellFormed) :
    ∃ blocks : List Block, Outline.ofText (Glyph.print glyphs) = { prelude := [], blocks } ∧
      blocks.map Block.glyph = glyphs ∧ ∀ block ∈ blocks, block.Sound := by
  obtain ⟨blocks, hlines, hglyphs, hsound, hfinish⟩ :=
    Glyph.exists_blocks h (Glyph.map_words_ofText_print h)
  have hread : Line.beforeEnd (Line.ofText (Glyph.print glyphs)) = blocks.flatMap Block.lines := by
    rw [hlines, Line.beforeEnd, List.takeWhile_eq_self_iff]
    simpa using hfinish
  refine ⟨blocks, ?_, hglyphs, hsound⟩
  rw [ofText, hread, ofLines_flatMap_lines]

/-! ## Glyphs of sound blocks -/

theorem Block.Sound.wellFormed_glyph {block : Block} (h : block.Sound) :
    block.glyph.WellFormed := by
  obtain ⟨width, height, hdimensions, -, hcount⟩ := h.matching
  obtain ⟨line, hline, hstatement⟩ := exists_line_of_dimensions hdimensions
  have hbounds : IsExtent width height := isExtent_of_dimensions hdimensions
  have hextent : block.extent = (width, height) := by
    rw [extent, hdimensions]
    rfl
  have hid : Text.IsWord block.id := Line.isWord_of_opened? block.opened
  have hwidth : block.glyph.width = width := congrArg Prod.fst hextent
  have hheight : block.glyph.height = height := congrArg Prod.snd hextent
  constructor
  · exact hid.ne_empty
  · intro c hc
    simpa using hid.noBlanks c hc
  · exact hwidth ▸ hbounds.width_pos
  · exact hwidth ▸ hbounds.width_le
  · exact hheight ▸ hbounds.height_pos
  · exact hheight ▸ hbounds.height_le
  · exact hheight ▸ h.whole_bands line hline width height hstatement
  · rw [hheight, ← hcount]
    simp [glyph]
  · exact fun row hrow => width_of_mem_rows hrow

namespace Definitions

theorem outline_sound_of_diagnostics {text : String} (h : (ofText text).diagnostics = #[]) :
    (Outline.ofText text).Sound := by
  have huntraced : (ofText text).untraced.diagnostics.toList = (Outline.ofText text).problems := by
    rw [untraced_ofText, diagnostics_foldl_addBlock, report, Array.toList_appendList,
      Outline.problems]
    rfl
  have hnone : (ofText text).untraced.diagnostics.toList = [] := by
    rw [untraced, h]
  rw [← Outline.problems_ofText_eq_nil_iff, ← huntraced, hnone]

theorem wellFormed_of_diagnostics {text : String} (h : (ofText text).diagnostics = #[]) :
    ∀ glyph ∈ (ofText text).glyphs.toList, glyph.WellFormed := by
  intro glyph hglyph
  obtain ⟨block, hblock, rfl⟩ := exists_block_of_mem_glyphs hglyph
  exact ((outline_sound_of_diagnostics h).blocks block hblock).wellFormed_glyph

theorem untraced_ofText_print {glyphs : List Glyph} (h : ∀ glyph ∈ glyphs, glyph.WellFormed)
    (hids : (glyphs.map (·.id)).Nodup) :
    (ofText (Glyph.print glyphs)).untraced = { glyphs := glyphs.toArray } := by
  obtain ⟨blocks, houtline, rfl, hsound⟩ := Outline.exists_ofText_print h
  have hblocks : ((Outline.ofText (Glyph.print (blocks.map Block.glyph))).blocks.map
      (·.id)).Nodup := by
    rw [houtline]
    rw [List.map_map] at hids
    exact hids
  have hproblems : (Outline.ofText (Glyph.print (blocks.map Block.glyph))).problems = [] := by
    rw [Outline.problems_ofText_eq_nil_iff, houtline]
    exact ⟨by simp, hsound⟩
  rw [untraced_ofText_of_nodup hblocks, hproblems, houtline]

/-- Printed glyphs are read back, in their order, without a diagnostic and without a warning. So
glyphs that were read without a diagnostic are the same when they are printed and read again. -/
theorem ofText_print :
    (∀ glyphs : List Glyph, (∀ glyph ∈ glyphs, glyph.WellFormed) → (glyphs.map (·.id)).Nodup →
      let found := ofText (Glyph.print glyphs)
      found.glyphs.toList = glyphs ∧ found.diagnostics = #[] ∧
        ∀ notice ∈ found.notices, notice.level = .trace) ∧
    ∀ text, (ofText text).diagnostics = #[] →
      (∀ glyph ∈ (ofText text).glyphs.toList, glyph.WellFormed) ∧
        (ofText (Glyph.print (ofText text).glyphs.toList)).glyphs = (ofText text).glyphs := by
  constructor
  · intro glyphs h hids found
    have huntraced : found.untraced = { glyphs := glyphs.toArray } := untraced_ofText_print h hids
    obtain ⟨hglyphs, hdiagnostics, hnotices⟩ := Definitions.mk.inj huntraced
    refine ⟨by rw [hglyphs], hdiagnostics, ?_⟩
    simpa using hnotices
  · intro text h
    have hwell := wellFormed_of_diagnostics h
    have huntraced := untraced_ofText_print hwell (nodup_ids_glyphs text)
    obtain ⟨hglyphs, -, -⟩ := Definitions.mk.inj huntraced
    exact ⟨hwell, hglyphs⟩

/-- Identifiers that would be directives, comments or pixels at the beginning of a line, and a text
with a long row, a sign and comments. -/
theorem ofText_print_directive_ids :
    let glyphs : List Glyph := ["END", "#x", "-", "DIM", "ID"].map fun id =>
      { id, width := 2, height := 8, rows := Array.replicate 8 ⟨#[false, true]⟩ }
    let text := "# A\nID A A\nDIM +01 8 8\nX -\n-\nX\n\nX\nX\nX\nX\nX\nEND\nX\n"
    ((∀ glyph ∈ glyphs, glyph.WellFormed) ∧ (glyphs.map (·.id)).Nodup ∧
      (ofText (Glyph.print glyphs)).glyphs.toList = glyphs) ∧
    (ofText text).diagnostics = #[] ∧
      (ofText (Glyph.print (ofText text).glyphs.toList)).glyphs = (ofText text).glyphs := by
  intro glyphs text
  have hwell : ∀ glyph ∈ glyphs, glyph.WellFormed := by decide
  have hids : (glyphs.map (·.id)).Nodup := by decide
  have hdiagnostics : (ofText text).diagnostics = #[] := by decide +kernel
  exact ⟨⟨hwell, hids, (ofText_print.1 glyphs hwell hids).1⟩, hdiagnostics,
    (ofText_print.2 text hdiagnostics).2⟩

end Definitions

end BitFont
