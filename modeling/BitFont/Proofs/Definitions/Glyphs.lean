import BitFont.Proofs.Definitions.Reading
import Mathlib.Data.List.Basic
import Mathlib.Data.List.Induction

/-!
# The glyphs of a text

A text defines one glyph for each identifier of its blocks, in the order in which the identifiers
come up first, with the content of the last block of the identifier. One more block replaces a glyph
or adds one at the end (`merge_concat`), and this is what closing its draft does. Every block that is
not the first of its identifier is noticed as a redefinition.
-/

namespace BitFont

/-! ## Blocks of one identifier -/

namespace Block

/-- The identifiers of the blocks, each at its first place. -/
def ids (blocks : List Block) : List String := (blocks.map (·.id)).eraseDups

/-- The last block with an identifier. -/
def last? (blocks : List Block) (id : String) : Option Block :=
  (blocks.filter (·.id = id)).getLast?

/-- The glyphs that the blocks define together. -/
def merge (blocks : List Block) : List Glyph :=
  (ids blocks).filterMap fun id => (last? blocks id).map glyph

theorem mem_ids {blocks : List Block} {id : String} :
    id ∈ ids blocks ↔ id ∈ blocks.map (·.id) := List.mem_eraseDups

theorem ids_concat (blocks : List Block) (block : Block) :
    ids (blocks ++ [block]) =
      if block.id ∈ ids blocks then ids blocks else ids blocks ++ [block.id] := by
  rw [ids, List.map_append, List.map_singleton, List.eraseDups_append, ← ids]
  by_cases hmem : block.id ∈ ids blocks
  · have hnone : [block.id].removeAll (blocks.map (·.id)) = [] := by
      simpa [List.removeAll] using mem_ids.mp hmem
    rw [if_pos hmem, hnone, List.eraseDups_nil, List.append_nil]
  · have hkeep : [block.id].removeAll (blocks.map (·.id)) = [block.id] := by
      have hnot := fun h => hmem (mem_ids.mpr h)
      simpa [List.removeAll] using hnot
    rw [if_neg hmem, hkeep, List.eraseDups_cons, List.filter_nil, List.eraseDups_nil]

theorem nodup_ids (blocks : List Block) : (ids blocks).Nodup := by
  induction blocks using List.reverseRecOn with
  | nil => exact List.nodup_nil
  | append_singleton blocks block ih =>
    rw [ids_concat]
    split
    · exact ih
    · rename_i hnew
      refine List.nodup_append.mpr ⟨ih, by simp, ?_⟩
      rintro id hid other hother rfl
      exact hnew (List.mem_singleton.mp hother ▸ hid)

theorem last?_concat (blocks : List Block) (block : Block) (id : String) :
    last? (blocks ++ [block]) id = if block.id = id then some block else last? blocks id := by
  rw [last?, List.filter_append]
  by_cases hid : block.id = id
  · rw [if_pos hid, List.filter_cons_of_pos (by simpa using hid), List.filter_nil,
      List.getLast?_concat]
  · rw [if_neg hid, List.filter_cons_of_neg (by simpa using hid), List.filter_nil, List.append_nil,
      last?]

theorem id_of_last? {blocks : List Block} {id : String} {block : Block}
    (h : last? blocks id = some block) : block.id = id := by
  have hmem := List.mem_of_getLast? h
  simpa using (List.mem_filter.mp hmem).2

theorem exists_last? {blocks : List Block} {id : String} (h : id ∈ ids blocks) :
    ∃ block, last? blocks id = some block := by
  obtain ⟨block, hblock, hid⟩ := List.mem_map.mp (mem_ids.mp h)
  have hmem : block ∈ blocks.filter (·.id = id) := List.mem_filter.mpr ⟨hblock, by simpa using hid⟩
  exact ⟨_, List.getLast?_eq_some_getLast (List.ne_nil_of_mem hmem)⟩

/-- Every identifier has its glyph. -/
theorem map_id_merge (blocks : List Block) : (merge blocks).map (·.id) = ids blocks := by
  have hsome : ∀ id ∈ ids blocks,
      ((last? blocks id).map glyph).map (·.id) = some id := by
    intro id hid
    obtain ⟨block, hblock⟩ := exists_last? hid
    rw [hblock, Option.map_some, Option.map_some]
    exact congrArg some (id_of_last? hblock)
  rw [merge, List.map_filterMap, List.filterMap_congr hsome, List.filterMap_some]

/-- One more block replaces the glyph of its identifier, or adds one at the end. -/
theorem merge_concat (blocks : List Block) (block : Block) :
    merge (blocks ++ [block]) =
      if block.id ∈ ids blocks then
        (merge blocks).map fun old => if old.id = block.id then block.glyph else old
      else
        merge blocks ++ [block.glyph] := by
  have hglyph : ∀ id ∈ ids blocks, (last? (blocks ++ [block]) id).map glyph =
      ((last? blocks id).map glyph).map fun old =>
        if old.id = block.id then block.glyph else old := by
    intro id hid
    obtain ⟨old, hold⟩ := exists_last? hid
    have holdId : old.glyph.id = id := id_of_last? hold
    rw [last?_concat, hold, Option.map_some, Option.map_some, holdId]
    by_cases hsame : block.id = id
    · rw [if_pos hsame, if_pos hsame.symm, Option.map_some]
    · have hne : id ≠ block.id := fun h => hsame h.symm
      rw [if_neg hsame, if_neg hne, Option.map_some]
  rw [merge, ids_concat]
  -- A known identifier keeps its place and only its glyph changes; a new one leaves all others alone.
  by_cases hmem : block.id ∈ ids blocks
  · rw [if_pos hmem, if_pos hmem, merge, List.map_filterMap]
    exact List.filterMap_congr hglyph
  · have hkeep : ∀ id ∈ ids blocks,
        (last? (blocks ++ [block]) id).map glyph = (last? blocks id).map glyph := by
      intro id hid
      have hne : block.id ≠ id := fun h => hmem (h ▸ hid)
      rw [last?_concat, if_neg hne]
    have hlast : [block.id].filterMap (fun id => (last? (blocks ++ [block]) id).map glyph) =
        [block.glyph] := by
      apply List.filterMap_cons_some
      rw [last?_concat, if_pos rfl, Option.map_some]
    rw [if_neg hmem, if_neg hmem, List.filterMap_append, List.filterMap_congr hkeep, hlast, merge]

end Block

/-! ## Defined glyphs -/

/-- A notice that a glyph is defined more than once. -/
def Notice.isRedefinition : Notice → Bool
  | redefined _ => true
  | _ => false

namespace Definitions

theorem glyphs_define (found : Definitions) (glyph : Glyph) :
    (found.define glyph).glyphs.toList =
      if glyph.id ∈ found.glyphs.toList.map (·.id) then
        found.glyphs.toList.map fun old => if old.id = glyph.id then glyph else old
      else
        found.glyphs.toList ++ [glyph] := by
  have hany : found.glyphs.any (·.id == glyph.id) = true ↔
      glyph.id ∈ found.glyphs.toList.map (·.id) := by
    rw [← Array.any_toList, List.any_eq_true, List.mem_map]
    simp only [beq_iff_eq]
  unfold define
  by_cases hold : glyph.id ∈ found.glyphs.toList.map (·.id)
  · rw [if_pos hold, if_pos (hany.mpr hold)]
    simp only [Array.toList_map, beq_iff_eq]
  · rw [if_neg hold, if_neg (fun h => hold (hany.mp h))]
    exact Array.toList_push

/-- A definition is counted once: as a glyph, or as a redefinition. -/
theorem count_define (found : Definitions) (glyph : Glyph) :
    (found.define glyph).notices.countP Notice.isRedefinition +
        (found.define glyph).glyphs.size =
      found.notices.countP Notice.isRedefinition + found.glyphs.size + 1 := by
  unfold define
  split
  · simp only [Array.countP_push, Array.size_map, Notice.isRedefinition, if_pos]
    omega
  · simp only [Array.size_push]
    omega

end Definitions

/-! ## Glyphs of drafts -/

theorem Row.eq_of_get {row other : Row} (hwidth : row.width = other.width)
    (hget : ∀ column < row.width, row.get column = other.get column) : row = other := by
  obtain ⟨bits⟩ := row
  obtain ⟨otherBits⟩ := other
  rw [Row.mk.injEq]
  apply Array.ext hwidth
  intro column hcolumn hother
  have h := hget column hcolumn
  rw [Row.get, Row.get, Array.getElem?_eq_getElem hcolumn, Array.getElem?_eq_getElem hother] at h
  exact h

namespace Block

theorem get_row (width : Nat) (line : Line) {column : Nat} (h : column < width) :
    (row width line).get column = line.pixel column := by
  simp [row, Row.get, h]

/-- Fitting the words of a line to a width gives the row that the line stands for. -/
theorem fit_draftRow (width : Nat) (line : Line) :
    Row.fit line.draftRow.bits width = row width line := by
  have hwidth : (row width line).width = width := by simp [row, Row.width]
  apply Row.eq_of_get
  · rw [Row.width_fit, hwidth]
  · intro column hcolumn
    rw [Row.width_fit] at hcolumn
    rw [Row.get_fit, get_row width line hcolumn, Line.pixel, Line.draftRow, List.getElem?_toArray,
      List.getElem?_map]
    cases line.words[column]? with
    | none => simp
    | some word => by_cases hword : word = "-" <;> simp [hcolumn, hword, Statement.pixelOfWord]

/-- Closing a finished draft defines the glyph of its block. -/
theorem glyph_draft (block : Block) : block.draft.glyph = block.glyph := by
  have hextent : block.draft.extent = block.extent := by
    rw [Draft.extent, dimensions_draft, extent]
  have hrows : block.draft.rows.map (fun row => Row.fit row.bits block.extent.1) =
      (block.rowLines.map (row block.extent.1)).toArray := by
    rw [rows_draft, List.map_toArray, List.map_map]
    apply congrArg List.toArray
    apply List.map_congr_left
    intro line _
    exact fit_draftRow block.extent.1 line
  rw [Draft.glyph, hextent, hrows]
  rfl

end Block

/-! ## Glyphs of texts -/

namespace Definitions

theorem glyphs_addBlock (found : Definitions) (block : Block) :
    (found.addBlock block).glyphs.toList =
      if block.id ∈ found.glyphs.toList.map (·.id) then
        found.glyphs.toList.map fun old => if old.id = block.id then block.glyph else old
      else
        found.glyphs.toList ++ [block.glyph] := by
  rw [addBlock, close, Block.glyph_draft, glyphs_define]
  rfl

theorem glyphs_foldl_addBlock (problems : List Diagnostic) (blocks : List Block) :
    (blocks.foldl addBlock (report {} problems)).glyphs.toList = Block.merge blocks := by
  induction blocks using List.reverseRecOn with
  | nil => rfl
  | append_singleton blocks block ih =>
    rw [List.foldl_append, List.foldl_cons, List.foldl_nil, glyphs_addBlock, ih,
      Block.map_id_merge, Block.merge_concat]

theorem count_foldl_addBlock (found : Definitions) (blocks : List Block) :
    (blocks.foldl addBlock found).notices.countP Notice.isRedefinition +
        (blocks.foldl addBlock found).glyphs.size =
      found.notices.countP Notice.isRedefinition + found.glyphs.size + blocks.length := by
  induction blocks generalizing found with
  | nil => rfl
  | cons block rest ih =>
    have hblock : (found.addBlock block).notices.countP Notice.isRedefinition +
        (found.addBlock block).glyphs.size =
      found.notices.countP Notice.isRedefinition + found.glyphs.size + 1 :=
      count_define ((found.report block.slips).report block.draft.problems) block.draft.glyph
    rw [List.foldl_cons, ih, hblock, List.length_cons]
    omega

theorem countP_isRedefinition_untraced (found : Definitions) :
    found.untraced.notices.countP Notice.isRedefinition =
      found.notices.countP Notice.isRedefinition := by
  have hkept : (fun notice : Notice => notice.isRedefinition && decide (notice.level ≠ .trace)) =
      Notice.isRedefinition := by
    funext notice
    cases notice <;> rfl
  rw [untraced, Array.countP_filter, hkept]

/-- A text defines one glyph for each identifier of its blocks, in the order of first appearance,
and its content is that of the last block with the identifier. The blocks hold every line that is
read behind the prelude, and each of them counts as a glyph or as one notice of redefinition. -/
theorem glyphs_ofText (text : String) :
    let outline := Outline.ofText text
    let found := Definitions.ofText text
    outline.lines = Line.beforeEnd (Line.ofText text) ∧
      found.glyphs.toList.map (·.id) = Block.ids outline.blocks ∧
      (Block.ids outline.blocks).Nodup ∧
      found.glyphs.toList = Block.merge outline.blocks ∧
      found.notices.countP Notice.isRedefinition + found.glyphs.size = outline.blocks.length := by
  intro outline found
  have huntraced : found.untraced = outline.blocks.foldl addBlock (report {} outline.strays) :=
    untraced_ofText text
  have hglyphs : found.glyphs.toList = Block.merge outline.blocks := by
    rw [← glyphs_foldl_addBlock outline.strays, ← huntraced]
    rfl
  have hcount : found.notices.countP Notice.isRedefinition + found.glyphs.size =
      outline.blocks.length := by
    have hfold := count_foldl_addBlock (report {} outline.strays) outline.blocks
    rw [← huntraced, countP_isRedefinition_untraced] at hfold
    simpa [untraced, report] using hfold
  have hids : found.glyphs.toList.map (·.id) = Block.ids outline.blocks := by
    rw [hglyphs, Block.map_id_merge]
  exact ⟨Outline.lines_ofLines _, hids, Block.nodup_ids _, hglyphs, hcount⟩

end Definitions

end BitFont
