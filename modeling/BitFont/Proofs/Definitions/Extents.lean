import BitFont.Proofs.Definitions.Identifiers
import BitFont.Proofs.Text.Numerals

/-!
# Sizes of glyphs

A `DIM` line gives a positive width and height, and a glyph has the size of such a line or, without
one, no size at all. Its rows have been fitted to the width.
-/

namespace BitFont

/-- A width and a height that a `DIM` line can give. -/
structure IsExtent (width height : Nat) : Prop where
  width_pos : 0 < width
  width_le : width ≤ Numeral.limit
  height_pos : 0 < height
  height_le : height ≤ Numeral.limit

namespace Statement

theorem bounds_of_readMeasure {measure : Measure} {words rest : List String} {value : Nat}
    (h : readMeasure measure words = .ok (value, rest)) : 0 < value ∧ value ≤ Numeral.limit := by
  unfold readMeasure at h
  split at h
  · contradiction
  · split at h
    · contradiction
    · contradiction
    · rename_i number hzero hread
      obtain ⟨rfl, -⟩ := Prod.mk.inj (Except.ok.inj h)
      exact ⟨Nat.pos_of_ne_zero fun h => hzero (h ▸ rfl), (Numeral.read_eq_ok_iff.mp hread).2⟩

theorem isExtent_of_ofMeasures {words : List String} {width height : Nat}
    (h : ofMeasures words = .dimensions width height) : IsExtent width height := by
  unfold ofMeasures at h
  split at h
  · contradiction
  · rename_i hwidth
    split at h
    · contradiction
    · rename_i hheight
      obtain ⟨rfl, rfl⟩ := Statement.dimensions.inj h
      obtain ⟨hpos, hle⟩ := bounds_of_readMeasure hwidth
      obtain ⟨hpos', hle'⟩ := bounds_of_readMeasure hheight
      exact ⟨hpos, hle, hpos', hle'⟩

theorem isExtent_of_ofWords {words : List String} {width height : Nat}
    (h : ofWords words = .dimensions width height) : IsExtent width height := by
  have hsays := says_ofWords words
  rw [h] at hsays
  cases hsays with
  | dimensions _ _ rest =>
    rw [ofWords_dim] at h
    exact isExtent_of_ofMeasures h

end Statement

theorem Line.statement_of_dimensions? {line : Line} {width height : Nat}
    (h : line.dimensions? = some (width, height)) :
    line.statement = .dimensions width height := by
  unfold dimensions? at h
  split at h
  · rename_i hstatement
    obtain ⟨rfl, rfl⟩ := Prod.mk.inj (Option.some.inj h)
    exact hstatement
  · contradiction

namespace Block

/-- The size of a block is that of one of its lines. -/
theorem exists_line_of_dimensions {block : Block} {width height : Nat}
    (h : block.dimensions = some (width, height)) :
    ∃ line ∈ block.body, line.statement = .dimensions width height := by
  obtain ⟨line, hline, hdimensions⟩ := List.mem_filterMap.mp (List.mem_of_getLast? h)
  exact ⟨line, hline, Line.statement_of_dimensions? hdimensions⟩

theorem isExtent_of_dimensions {block : Block} {width height : Nat}
    (h : block.dimensions = some (width, height)) : IsExtent width height := by
  obtain ⟨line, -, hline⟩ := exists_line_of_dimensions h
  exact Statement.isExtent_of_ofWords hline

theorem extent_eq_zero_or_isExtent (block : Block) :
    (block.glyph.width = 0 ∧ block.glyph.height = 0) ∨
      IsExtent block.glyph.width block.glyph.height := by
  rw [glyph, extent]
  cases hdimensions : block.dimensions with
  | none => exact .inl ⟨rfl, rfl⟩
  | some dimensions => exact .inr (isExtent_of_dimensions hdimensions)

theorem width_of_mem_rows {block : Block} {row : Row} (h : row ∈ block.glyph.rows) :
    row.width = block.glyph.width := by
  rw [glyph, List.mem_toArray, List.mem_map] at h
  obtain ⟨line, -, rfl⟩ := h
  simp [Block.row, Row.width, glyph]

end Block

/-- Every glyph of a text is that of one of its blocks. -/
theorem Definitions.exists_block_of_mem_glyphs {text : String} {glyph : Glyph}
    (h : glyph ∈ (ofText text).glyphs.toList) :
    ∃ block ∈ (Outline.ofText text).blocks, block.glyph = glyph := by
  rw [toList_glyphs_ofText, Block.merge, List.mem_filterMap] at h
  obtain ⟨id, -, hglyph⟩ := h
  obtain ⟨block, hblock, rfl⟩ := Option.map_eq_some_iff.mp hglyph
  exact ⟨block, (List.mem_filter.mp (List.mem_of_getLast? hblock)).1, rfl⟩

end BitFont
