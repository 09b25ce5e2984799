import BitFont.Proofs.Compilation.Streams
import BitFont.Proofs.Definitions.Identifiers

/-!
# What holds of every font

The definitions, the encoded data and the layout of a compiled text go through the glyphs in step.
`IsLaidOut` says so in terms of the compiled glyphs, which join the three.
-/

namespace BitFont.Compilation

/-- The glyphs have words for identifiers, and their data fills the stream from one end to the other
in the order of the layout. -/
structure IsLaidOut (font : Compilation) : Prop where
  ids : ∀ glyph ∈ font.glyphs, Text.IsWord glyph.entry.id
  entries : font.layout.entries.toList = font.glyphs.map (·.entry)
  payload : font.payload = font.glyphs.flatMap (·.encoded.bytes)
  totalSize : font.totalSize = font.payload.length
  index : ∀ (i : Nat) (glyph : CompiledGlyph), font.glyphs[i]? = some glyph → glyph.entry.index = i
  range : ∀ glyph ∈ font.glyphs, ∃ before after,
    font.payload = before ++ (glyph.encoded.bytes ++ after) ∧
      glyph.entry.offset = before.length ∧ glyph.entry.size = glyph.encoded.bytes.length

theorem IsLaidOut.length_layout {font : Compilation} (h : font.IsLaidOut) :
    font.layout.length = font.glyphs.length := by
  have hentries := congrArg List.length h.entries
  rw [List.length_map, Array.length_toList] at hentries
  exact hentries

theorem map_encoded_glyphs (found : Definitions) :
    (ofDefinitions found).glyphs.map (·.encoded) = (ofDefinitions found).encoded := by
  apply List.ext_getElem?
  intro i
  rw [List.getElem?_map, getElem?_glyphs, Option.map_map]
  exact (List.getElem?_map ..).symm

theorem map_entry_glyphs (found : Definitions) :
    (ofDefinitions found).glyphs.map (·.entry) = (ofDefinitions found).layout.entries.toList := by
  have hentry (i : Nat) := getElem?_entries_ofDefinitions found i
  simp only [← Array.getElem?_toList] at hentry
  apply List.ext_getElem?
  intro i
  rw [List.getElem?_map, getElem?_glyphs, hentry, Option.map_map]
  rfl

theorem totalSize_ofDefinitions (found : Definitions) :
    (ofDefinitions found).totalSize = (ofDefinitions found).payload.length := by
  rw [totalSize, layout_ofDefinitions, Layout.totalSize_ofSizes, span_encodedSizes,
    payload_ofDefinitions]

theorem isLaidOut_ofText (text : String) : (ofText text).IsLaidOut where
  ids := by
    intro glyph hglyph
    obtain ⟨i, hi⟩ := List.getElem?_of_mem hglyph
    rw [ofText, getElem?_glyphs, Option.map_eq_some_iff] at hi
    obtain ⟨definition, hdefinition, rfl⟩ := hi
    exact Definitions.isWord_of_mem_glyphs (List.mem_of_getElem? hdefinition)
  entries := (map_entry_glyphs _).symm
  payload := by
    have hencoded : (ofText text).encoded = (ofText text).glyphs.map (·.encoded) :=
      (map_encoded_glyphs _).symm
    rw [Compilation.payload, hencoded, List.flatMap_map]
  totalSize := totalSize_ofDefinitions _
  index := by
    intro i glyph hi
    rw [ofText, getElem?_glyphs, Option.map_eq_some_iff] at hi
    obtain ⟨definition, -, rfl⟩ := hi
    rfl
  range := by
    intro glyph hglyph
    obtain ⟨-, hsize, before, after, hpayload, hoffset⟩ := exists_payload_split hglyph
    exact ⟨before, after, hpayload, hoffset, hsize⟩

end BitFont.Compilation
