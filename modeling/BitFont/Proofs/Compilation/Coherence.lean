import BitFont.Proofs.Compilation.Invariant
import BitFont.Proofs.Definitions.Extents
import BitFont.Proofs.Layout.Tiling

/-!
# Coherent fonts

A font keeps its glyphs, their data, their places and the stream side by side. `IsCoherent` says
what the lists have to do with one another; every compiled text is coherent
(`isCoherent_ofText`), since the glyphs have identifiers of their own and all else is made of them
in order.
-/

namespace BitFont.Compilation

/-- The parts of a font belong together. -/
structure IsCoherent (font : Compilation) : Prop where
  /-- The lists go through the same identifiers, and no glyph is lost when they are joined. -/
  map_id_encoded : font.encoded.map (·.id) = font.definitions.map (·.id)
  map_id_entries : font.layout.entries.toList.map (·.id) = font.definitions.map (·.id)
  length_glyphs : font.glyphs.length = font.definitions.length
  nodup_ids : (font.definitions.map (·.id)).Nodup
  isWord_id : ∀ glyph ∈ font.definitions, Text.IsWord glyph.id
  extent : ∀ glyph ∈ font.definitions,
    (glyph.width = 0 ∧ glyph.height = 0) ∨ (0 < glyph.width ∧ 0 < glyph.height)
  width_rows : ∀ glyph ∈ font.definitions, ∀ row ∈ glyph.rows, row.width = glyph.width
  index : ∀ (i : Nat) (entry : Layout.Entry), font.layout.entries[i]? = some entry →
    entry.index = i ∧ entry.offset = (font.layout.sizes.take i).sum
  /-- The range of a glyph holds its data. -/
  data : ∀ (i : Nat) (encoded : EncodedGlyph) (entry : Layout.Entry),
    font.encoded[i]? = some encoded → font.layout.entries[i]? = some entry →
      entry.size = encoded.bytes.length ∧
        (font.payload.drop entry.offset).take entry.size = encoded.bytes
  /-- The ranges tile the stream. -/
  totalSize_eq : font.totalSize = font.payload.length
  range_le : ∀ entry ∈ font.layout.entries, entry.offset + entry.size ≤ font.totalSize
  existsUnique_range : ∀ position < font.totalSize, ∃! entry, entry ∈ font.layout.entries ∧
    entry.offset ≤ position ∧ position < entry.offset + entry.size
  /-- The layout finds every glyph by its identifier, and nothing else. -/
  get?_id : ∀ glyph ∈ font.glyphs, font.layout.get? glyph.definition.id = some glyph.entry
  get?_eq_none : ∀ id, id ∉ font.definitions.map (·.id) → font.layout.get? id = none

theorem map_definition_glyphs (found : Definitions) :
    (ofDefinitions found).glyphs.map (·.definition) = (ofDefinitions found).definitions := by
  apply List.ext_getElem?
  intro i
  rw [List.getElem?_map, getElem?_glyphs, Option.map_map]
  cases hglyph : found.glyphs.toList[i]? with
  | none => exact hglyph.symm
  | some glyph => exact hglyph.symm

theorem id_entry_of_mem_glyphs {found : Definitions} {glyph : CompiledGlyph}
    (h : glyph ∈ (ofDefinitions found).glyphs) : glyph.entry.id = glyph.definition.id := by
  obtain ⟨i, hi⟩ := List.getElem?_of_mem h
  rw [getElem?_glyphs] at hi
  obtain ⟨definition, -, rfl⟩ := Option.map_eq_some_iff.mp hi
  rfl

theorem map_id_entries_ofDefinitions (found : Definitions) :
    (ofDefinitions found).layout.entries.toList.map (·.id) =
      (ofDefinitions found).definitions.map (·.id) := by
  rw [← map_entry_glyphs, ← map_definition_glyphs, List.map_map, List.map_map]
  exact List.map_congr_left fun glyph hglyph => id_entry_of_mem_glyphs hglyph

/-- The data of a glyph is found in the stream at its place. -/
theorem take_drop_payload {found : Definitions} {glyph : CompiledGlyph}
    (h : glyph ∈ (ofDefinitions found).glyphs) :
    ((ofDefinitions found).payload.drop glyph.entry.offset).take glyph.entry.size =
      glyph.encoded.bytes := by
  obtain ⟨-, hsize, before, after, hpayload, hoffset⟩ := exists_payload_split h
  rw [hpayload, hoffset, hsize, List.drop_left, List.take_left]

theorem getElem?_glyphs_of_getElem? {found : Definitions} {i : Nat} {encoded : EncodedGlyph}
    {entry : Layout.Entry} (hencoded : (ofDefinitions found).encoded[i]? = some encoded)
    (hentry : (ofDefinitions found).layout.entries[i]? = some entry) :
    ∃ glyph ∈ (ofDefinitions found).glyphs, glyph.encoded = encoded ∧ glyph.entry = entry := by
  rw [← map_encoded_glyphs, List.getElem?_map] at hencoded
  rw [← Array.getElem?_toList, ← map_entry_glyphs, List.getElem?_map] at hentry
  obtain ⟨glyph, hglyph, hencoded⟩ := Option.map_eq_some_iff.mp hencoded
  rw [hglyph] at hentry
  exact ⟨glyph, List.mem_of_getElem? hglyph, hencoded, Option.some.inj hentry⟩

/-- Every compiled text gives a coherent font, also one with problems. -/
theorem isCoherent_ofText (text : String) : (ofText text).IsCoherent where
  map_id_encoded := List.map_map
  map_id_entries := map_id_entries_ofDefinitions _
  length_glyphs := by
    have hglyphs := congrArg List.length (map_definition_glyphs (Definitions.ofText text))
    rw [List.length_map] at hglyphs
    exact hglyphs
  nodup_ids := Definitions.nodup_ids_glyphs text
  isWord_id _ hglyph := Definitions.isWord_of_mem_glyphs hglyph
  extent := by
    intro glyph hglyph
    obtain ⟨block, -, rfl⟩ := Definitions.exists_block_of_mem_glyphs hglyph
    rcases block.extent_eq_zero_or_isExtent with hzero | hextent
    · exact .inl hzero
    · exact .inr ⟨hextent.width_pos, hextent.height_pos⟩
  width_rows := by
    intro glyph hglyph row hrow
    obtain ⟨block, -, rfl⟩ := Definitions.exists_block_of_mem_glyphs hglyph
    exact Block.width_of_mem_rows hrow
  index := by
    intro i entry hentry
    rw [ofText, layout_ofDefinitions] at hentry ⊢
    exact Layout.index_offset_of_getElem? hentry
  data := by
    intro i encoded entry hencoded hentry
    obtain ⟨glyph, hglyph, rfl, rfl⟩ := getElem?_glyphs_of_getElem? hencoded hentry
    exact ⟨(exists_payload_split hglyph).2.1, take_drop_payload hglyph⟩
  totalSize_eq := totalSize_ofDefinitions _
  range_le := by
    intro entry hentry
    rw [ofText, layout_ofDefinitions] at hentry
    rw [ofText, totalSize, layout_ofDefinitions]
    exact Layout.offset_add_size_le hentry
  existsUnique_range := by
    intro position hposition
    rw [ofText, totalSize, layout_ofDefinitions] at hposition
    rw [ofText, layout_ofDefinitions]
    exact Layout.existsUnique_entry _ hposition
  get?_id := by
    intro glyph hglyph
    have hnodup : ((ofText text).layout.entries.toList.map (·.id)).Nodup := by
      rw [ofText, map_id_entries_ofDefinitions]
      exact Definitions.nodup_ids_glyphs text
    have hentry : glyph.entry ∈ (ofText text).layout.entries := by
      rw [← Array.mem_toList_iff, ofText, ← map_entry_glyphs]
      exact List.mem_map_of_mem hglyph
    rw [← id_entry_of_mem_glyphs hglyph]
    exact Layout.get?_of_nodup hnodup hentry
  get?_eq_none := by
    intro id hid
    apply Layout.get?_eq_none
    intro entry hentry hsame
    rw [ofText, ← map_id_entries_ofDefinitions] at hid
    exact hid (hsame ▸ List.mem_map_of_mem (Array.mem_toList_iff.mpr hentry))

end BitFont.Compilation
