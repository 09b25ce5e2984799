import BitFont.Proofs.Definitions.Glyphs
import BitFont.Proofs.Definitions.Significance
import BitFont.Proofs.Text.Words

/-!
# Identifiers of glyphs

A glyph has the identifier of an `ID` line, which is the second word of that line, and no two glyphs
of a text have the same.
-/

namespace BitFont

/-- What opens a block is a word of the opening line. -/
theorem Line.isWord_of_opened? {line : Line} {id : String} (h : line.opened? = some id) :
    Text.IsWord id := by
  have hsays := line.says_statement
  have hmem (word : String) (hword : word ∈ line.words) : Text.IsWord word :=
    Text.isWord_of_mem_words hword
  unfold opened? at h
  generalize line.words = words at hsays hmem
  generalize line.statement = statement at hsays h
  cases hsays with
  | glyph other rest =>
    obtain rfl : other = id := Option.some.inj h
    exact hmem other (by simp)
  | _ => contradiction

namespace Definitions

theorem toList_glyphs_ofText (text : String) :
    (ofText text).glyphs.toList = Block.merge (Outline.ofText text).blocks := by
  have huntraced : (ofText text).untraced.glyphs.toList =
      Block.merge (Outline.ofText text).blocks := by
    rw [untraced_ofText, glyphs_foldl_addBlock]
  exact huntraced

theorem nodup_ids_glyphs (text : String) :
    ((ofText text).glyphs.toList.map (·.id)).Nodup := by
  rw [toList_glyphs_ofText, Block.map_id_merge]
  exact Block.nodup_ids _

theorem isWord_of_mem_glyphs {text : String} {glyph : Glyph}
    (h : glyph ∈ (ofText text).glyphs.toList) : Text.IsWord glyph.id := by
  have hid : glyph.id ∈ (Block.merge (Outline.ofText text).blocks).map (·.id) := by
    rw [← toList_glyphs_ofText]
    exact List.mem_map_of_mem h
  rw [Block.map_id_merge, Block.mem_ids, List.mem_map] at hid
  obtain ⟨block, -, hblock⟩ := hid
  rw [← hblock]
  exact Line.isWord_of_opened? block.opened

end Definitions

end BitFont
