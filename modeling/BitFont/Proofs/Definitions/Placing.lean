import BitFont.Proofs.Definitions.Glyphs

/-!
# Putting glyphs in place

The glyphs of a text are collected one by one: a glyph takes the place of the one with its
identifier, or is added at the end. Glyphs that were collected on their own can be put behind others
at once, since only the last glyph of an identifier counts and known identifiers keep their place
(`foldl_place_merge`).
-/

namespace BitFont

namespace Glyph

/-- The new glyph where the old one has its identifier. -/
def replace (glyph old : Glyph) : Glyph := if old.id = glyph.id then glyph else old

/-- Puts a glyph in the place of the one with its identifier, or at the end. -/
def place (glyphs : List Glyph) (glyph : Glyph) : List Glyph :=
  if glyph.id ∈ glyphs.map (·.id) then glyphs.map (replace glyph) else glyphs ++ [glyph]

theorem id_replace (glyph old : Glyph) : (replace glyph old).id = old.id := by
  unfold replace
  split
  · rename_i hid
    exact hid.symm
  · rfl

theorem map_id_map_replace (glyph : Glyph) (glyphs : List Glyph) :
    (glyphs.map (replace glyph)).map (·.id) = glyphs.map (·.id) := by
  rw [List.map_map]
  exact List.map_congr_left fun old _ => id_replace glyph old

theorem map_replace_of_not_mem {glyph : Glyph} {glyphs : List Glyph}
    (h : glyph.id ∉ glyphs.map (·.id)) : glyphs.map (replace glyph) = glyphs := by
  have hkeep : ∀ old ∈ glyphs, replace glyph old = old := by
    intro old hold
    apply if_neg
    intro hid
    exact h (hid ▸ List.mem_map_of_mem hold)
  rw [List.map_congr_left hkeep, List.map_id']

theorem place_of_mem {glyph : Glyph} {glyphs : List Glyph} (h : glyph.id ∈ glyphs.map (·.id)) :
    place glyphs glyph = glyphs.map (replace glyph) := if_pos h

theorem place_of_not_mem {glyph : Glyph} {glyphs : List Glyph}
    (h : glyph.id ∉ glyphs.map (·.id)) : place glyphs glyph = glyphs ++ [glyph] := if_neg h

theorem mem_map_id_place {id : String} {glyphs : List Glyph} {glyph : Glyph} :
    id ∈ (place glyphs glyph).map (·.id) ↔ id ∈ glyphs.map (·.id) ∨ id = glyph.id := by
  by_cases hmem : glyph.id ∈ glyphs.map (·.id)
  · rw [place_of_mem hmem, map_id_map_replace]
    constructor
    · exact Or.inl
    · rintro (hid | rfl)
      · exact hid
      · exact hmem
  · rw [place_of_not_mem hmem, List.map_append, List.mem_append, List.map_singleton,
      List.mem_singleton]

/-- The later one of two glyphs with one identifier counts. -/
theorem place_place_of_id_eq (glyphs : List Glyph) {glyph next : Glyph} (h : glyph.id = next.id) :
    place (place glyphs glyph) next = place glyphs next := by
  have hnext : next.id ∈ (place glyphs glyph).map (·.id) := mem_map_id_place.mpr (Or.inr h.symm)
  rw [place_of_mem hnext]
  by_cases hmem : glyph.id ∈ glyphs.map (·.id)
  · have hreplace : ∀ old ∈ glyphs, replace next (replace glyph old) = replace next old := by
      intro old _
      rw [replace, id_replace]
      unfold replace
      split
      · rfl
      · rename_i hne
        rw [if_neg (fun hid => hne (hid.trans h))]
    rw [place_of_mem hmem, place_of_mem (h ▸ hmem), List.map_map, ← List.map_congr_left hreplace]
    rfl
  · have hnew : next.id ∉ glyphs.map (·.id) := h ▸ hmem
    rw [place_of_not_mem hmem, place_of_not_mem hnew, List.map_append, map_replace_of_not_mem hnew,
      List.map_singleton, replace, if_pos h]

/-- A glyph with a place may as well be put there before another one. -/
theorem place_comm {glyphs : List Glyph} {glyph other : Glyph}
    (hmem : glyph.id ∈ glyphs.map (·.id)) (hne : other.id ≠ glyph.id) :
    place (place glyphs other) glyph = place (place glyphs glyph) other := by
  have hleft : glyph.id ∈ (place glyphs other).map (·.id) := mem_map_id_place.mpr (Or.inl hmem)
  rw [place_of_mem hleft, place_of_mem hmem]
  by_cases hother : other.id ∈ glyphs.map (·.id)
  · have hright : other.id ∈ (glyphs.map (replace glyph)).map (·.id) := by
      rw [map_id_map_replace]
      exact hother
    have hreplace : ∀ old ∈ glyphs,
        replace glyph (replace other old) = replace other (replace glyph old) := by
      intro old _
      by_cases hid : old.id = glyph.id
      · have hold : old.id ≠ other.id := fun h => hne (h.symm.trans hid)
        rw [replace, id_replace, if_pos hid]
        unfold replace
        rw [if_pos hid, if_neg hne.symm]
      · rw [replace, id_replace, if_neg hid]
        unfold replace
        rw [if_neg hid]
    rw [place_of_mem hother, place_of_mem hright, List.map_map, List.map_map]
    exact List.map_congr_left hreplace
  · have hright : other.id ∉ (glyphs.map (replace glyph)).map (·.id) := by
      rw [map_id_map_replace]
      exact hother
    rw [place_of_not_mem hother, place_of_not_mem hright, List.map_append, List.map_singleton,
      replace, if_neg hne]

theorem foldl_place_comm {glyphs others : List Glyph} {glyph : Glyph}
    (hmem : glyph.id ∈ glyphs.map (·.id)) (hne : ∀ other ∈ others, other.id ≠ glyph.id) :
    place (others.foldl place glyphs) glyph = others.foldl place (place glyphs glyph) := by
  induction others generalizing glyphs with
  | nil => rfl
  | cons other rest ih =>
    obtain ⟨hother, hrest⟩ := List.forall_mem_cons.mp hne
    rw [List.foldl_cons, List.foldl_cons, ih (mem_map_id_place.mpr (Or.inl hmem)) hrest,
      place_comm hmem hother]

/-- Putting one more glyph among some glyphs and all of them behind others is putting these there
first. -/
theorem foldl_place_place (glyphs : List Glyph) {others : List Glyph}
    (hnodup : (others.map (·.id)).Nodup) (glyph : Glyph) :
    (place others glyph).foldl place glyphs = place (others.foldl place glyphs) glyph := by
  by_cases hmem : glyph.id ∈ others.map (·.id)
  · rw [place_of_mem hmem]
    -- The glyph is replaced in the middle of `others`; what stands behind it has other identifiers.
    induction others generalizing glyphs with
    | nil => simp at hmem
    | cons other rest ih =>
      rw [List.map_cons, List.nodup_cons] at hnodup
      rw [List.map_cons, List.foldl_cons, List.foldl_cons]
      by_cases hid : other.id = glyph.id
      · have hrest : glyph.id ∉ rest.map (·.id) := hid ▸ hnodup.1
        have hne : ∀ next ∈ rest, next.id ≠ glyph.id := by
          intro next hnext heq
          exact hrest (heq ▸ List.mem_map_of_mem hnext)
        have hplaced : glyph.id ∈ (place glyphs other).map (·.id) :=
          mem_map_id_place.mpr (Or.inr hid.symm)
        rw [map_replace_of_not_mem hrest, replace, if_pos hid, foldl_place_comm hplaced hne,
          place_place_of_id_eq glyphs hid]
      · have hrest : glyph.id ∈ rest.map (·.id) := by
          rcases List.mem_cons.mp hmem with heq | hrest
          · exact absurd heq.symm hid
          · exact hrest
        rw [replace, if_neg hid, ih _ hnodup.2 hrest]
  · rw [place_of_not_mem hmem, List.foldl_append]
    rfl

/-- Glyphs with new identifiers are added at the end. -/
theorem foldl_place_of_disjoint {glyphs others : List Glyph}
    (hnodup : (others.map (·.id)).Nodup)
    (hne : ∀ glyph ∈ glyphs, ∀ other ∈ others, glyph.id ≠ other.id) :
    others.foldl place glyphs = glyphs ++ others := by
  induction others generalizing glyphs with
  | nil => rw [List.foldl_nil, List.append_nil]
  | cons other rest ih =>
    rw [List.map_cons, List.nodup_cons] at hnodup
    have hnew : other.id ∉ glyphs.map (·.id) := by
      intro hmem
      obtain ⟨glyph, hglyph, hid⟩ := List.mem_map.mp hmem
      exact hne glyph hglyph other List.mem_cons_self hid
    have hrest : ∀ glyph ∈ glyphs ++ [other], ∀ next ∈ rest, glyph.id ≠ next.id := by
      intro glyph hglyph next hnext
      rcases List.mem_append.mp hglyph with hold | hlast
      · exact hne glyph hold next (List.mem_cons_of_mem _ hnext)
      · rw [List.mem_singleton.mp hlast]
        intro hid
        exact hnodup.1 (hid ▸ List.mem_map_of_mem hnext)
    rw [List.foldl_cons, place_of_not_mem hnew, ih hnodup.2 hrest, List.append_assoc,
      List.singleton_append]

end Glyph

namespace Block

theorem nodup_map_id_merge (blocks : List Block) : ((merge blocks).map (·.id)).Nodup := by
  rw [map_id_merge]
  exact nodup_ids blocks

theorem merge_concat_eq_place (blocks : List Block) (block : Block) :
    merge (blocks ++ [block]) = Glyph.place (merge blocks) block.glyph := by
  rw [merge_concat, ← map_id_merge]
  rfl

/-- What blocks define together can be put behind other glyphs at once. -/
theorem foldl_place_merge (glyphs : List Glyph) (blocks : List Block) :
    (merge blocks).foldl Glyph.place glyphs = (blocks.map glyph).foldl Glyph.place glyphs := by
  induction blocks using List.reverseRecOn with
  | nil => rfl
  | append_singleton blocks block ih =>
    rw [merge_concat_eq_place, Glyph.foldl_place_place glyphs (nodup_map_id_merge blocks), ih,
      List.map_append, List.foldl_append]
    rfl

end Block

/-- Blocks that are read behind others put their glyphs in place one after the other. -/
theorem Definitions.glyphs_foldl_addBlock_eq_foldl_place (found : Definitions)
    (blocks : List Block) :
    (blocks.foldl addBlock found).glyphs.toList =
      (blocks.map Block.glyph).foldl Glyph.place found.glyphs.toList := by
  induction blocks generalizing found with
  | nil => rfl
  | cons block rest ih =>
    have hplace : (found.addBlock block).glyphs.toList =
        Glyph.place found.glyphs.toList block.glyph := glyphs_addBlock found block
    rw [List.foldl_cons, ih, hplace, List.map_cons, List.foldl_cons]

end BitFont
