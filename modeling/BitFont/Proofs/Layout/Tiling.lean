import BitFont.Proofs.Layout.Offsets
import Mathlib.Logic.ExistsUnique

/-!
# Ranges of a layout

The ranges of a layout tile the stream: each lies inside of it, and each position belongs to exactly
one of them (`existsUnique_entry`), however many empty ranges there are. Where no identifier comes
twice, every entry is found by its own.
-/

namespace BitFont.Layout

theorem sizes_ofSizes (sizes : List (String × Nat)) : (ofSizes sizes).sizes = sizes.map (·.2) := by
  apply List.ext_getElem?
  intro i
  rw [Layout.sizes, List.getElem?_map, Array.getElem?_toList, getElem?_entries_ofSizes,
    Option.map_map, List.getElem?_map]
  rfl

/-- An entry is counted, and begins where the sizes in front of it end. -/
theorem index_offset_of_getElem? {sizes : List (String × Nat)} {i : Nat} {entry : Entry}
    (h : (ofSizes sizes).entries[i]? = some entry) :
    entry.index = i ∧ entry.offset = ((ofSizes sizes).sizes.take i).sum := by
  rw [getElem?_entries_ofSizes] at h
  obtain ⟨item, -, rfl⟩ := Option.map_eq_some_iff.mp h
  rw [sizes_ofSizes, ← List.map_take]
  exact ⟨rfl, rfl⟩

theorem entries_ofSizes_concat (sizes : List (String × Nat)) (item : String × Nat) :
    (ofSizes (sizes ++ [item])).entries =
      (ofSizes sizes).entries.push
        { id := item.1, index := sizes.length, offset := (ofSizes sizes).totalSize
          size := item.2 } := by
  rw [ofSizes_concat, ← size_entries_ofSizes]
  rfl

theorem totalSize_ofSizes_concat (sizes : List (String × Nat)) (item : String × Nat) :
    (ofSizes (sizes ++ [item])).totalSize = (ofSizes sizes).totalSize + item.2 := by
  rw [ofSizes_concat]
  rfl

theorem offset_add_size_le {sizes : List (String × Nat)} {entry : Entry}
    (h : entry ∈ (ofSizes sizes).entries) :
    entry.offset + entry.size ≤ (ofSizes sizes).totalSize := by
  induction sizes using List.reverseRecOn with
  | nil => simp [ofSizes] at h
  | append_singleton sizes item ih =>
    rw [entries_ofSizes_concat, Array.mem_push] at h
    rw [totalSize_ofSizes_concat]
    rcases h with hold | rfl
    · exact Nat.le_trans (ih hold) (Nat.le_add_right _ _)
    · exact Nat.le_refl _

/-- A position of the stream belongs to one entry. -/
theorem existsUnique_entry (sizes : List (String × Nat)) {position : Nat}
    (h : position < (ofSizes sizes).totalSize) :
    ∃! entry, entry ∈ (ofSizes sizes).entries ∧ entry.offset ≤ position ∧
      position < entry.offset + entry.size := by
  induction sizes using List.reverseRecOn with
  | nil => exact absurd h (Nat.not_lt_zero _)
  | append_singleton sizes item ih =>
    rw [totalSize_ofSizes_concat] at h
    simp only [entries_ofSizes_concat, Array.mem_push]
    -- What was placed before ends where the last range begins.
    by_cases hold : position < (ofSizes sizes).totalSize
    · obtain ⟨entry, ⟨hmem, hrange⟩, hunique⟩ := ih hold
      refine ⟨entry, ⟨.inl hmem, hrange⟩, ?_⟩
      rintro other ⟨hother | rfl, hrange'⟩
      · exact hunique other ⟨hother, hrange'⟩
      · exact absurd hold (Nat.not_lt_of_le hrange'.1)
    · refine ⟨_, ⟨.inr rfl, Nat.le_of_not_lt hold, h⟩, ?_⟩
      rintro other ⟨hother | rfl, hrange'⟩
      · exact absurd (Nat.lt_of_lt_of_le hrange'.2 (offset_add_size_le hother)) hold
      · rfl

theorem get?_of_nodup {layout : Layout} (h : (layout.entries.toList.map (·.id)).Nodup)
    {entry : Entry} (hmem : entry ∈ layout.entries) : layout.get? entry.id = some entry := by
  have hfind (entries : List Entry) (hnodup : (entries.map (·.id)).Nodup)
      (hentry : entry ∈ entries) : entries.find? (·.id == entry.id) = some entry := by
    induction entries with
    | nil => simp at hentry
    | cons first rest ih =>
      rw [List.map_cons, List.nodup_cons] at hnodup
      rcases List.mem_cons.mp hentry with rfl | hrest
      · exact List.find?_cons_of_pos (beq_self_eq_true _)
      · have hne : first.id ≠ entry.id :=
          fun hid => hnodup.1 (hid ▸ List.mem_map_of_mem hrest)
        rw [List.find?_cons_of_neg (by simpa using hne)]
        exact ih hnodup.2 hrest
  rw [get?, ← Array.find?_toList]
  exact hfind _ h (Array.mem_toList_iff.mpr hmem)

theorem get?_eq_none {layout : Layout} {id : String} (h : ∀ entry ∈ layout.entries, entry.id ≠ id) :
    layout.get? id = none := by
  rw [get?, Array.find?_eq_none]
  intro entry hentry
  simpa using h entry hentry

end BitFont.Layout
