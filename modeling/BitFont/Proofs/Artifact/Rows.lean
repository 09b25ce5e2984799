import BitFont.Proofs.Artifact.Listing

/-!
# Rows of cells

A long list is cut into rows that are full but for the last (`inRows_chunks`). The commas between
the items of a list belong to its cells: a cell is an item and the comma behind it. Then it does not
matter whether a list is cut first and the commas come later, or the other way round
(`commaSeparated_chunks`).
-/

namespace BitFont.Listing

variable {α β : Type}

/-! ## Cutting -/

theorem chunks_of_length_le {size : Nat} {items : List α} (hne : items ≠ [])
    (h : items.length ≤ size + 1) : chunks (size + 1) items = [items] := by
  cases items with
  | nil => contradiction
  | cons first rest =>
    rw [chunks_cons, List.take_of_length_le h, List.drop_of_length_le h, chunks]

theorem chunks_append {size : Nat} {row : List α} (h : row.length = size + 1) (others : List α) :
    chunks (size + 1) (row ++ others) = row :: chunks (size + 1) others := by
  cases row with
  | nil => contradiction
  | cons first rest =>
    rw [List.cons_append, chunks_cons, ← List.cons_append, ← h, List.take_left, List.drop_left]

/-- Induction that takes full rows off the front of a list, down to the last row. -/
@[elab_as_elim]
theorem row_induction {motive : List α → Prop} (size : Nat) (items : List α) (nil : motive [])
    (last : ∀ row, row ≠ [] → row.length ≤ size + 1 → motive row)
    (append : ∀ row others, row.length = size + 1 → others ≠ [] → motive others →
      motive (row ++ others)) : motive items := by
  induction hlength : items.length using Nat.strongRecOn generalizing items with
  | ind length ih =>
    by_cases hne : items = []
    · rw [hne]
      exact nil
    · by_cases hshort : items.length ≤ size + 1
      · exact last items hne hshort
      · have hrow : (items.take (size + 1)).length = size + 1 := by
          rw [List.length_take]
          omega
        have hothers : (items.drop (size + 1)).length = items.length - (size + 1) :=
          List.length_drop
        have hpos : items.drop (size + 1) ≠ [] := List.ne_nil_of_length_pos (by omega)
        rw [← List.take_append_drop (size + 1) items]
        exact append _ _ hrow hpos (ih _ (by omega) _ rfl)

theorem chunks_map (size : Nat) (f : α → β) (items : List α) :
    chunks (size + 1) (items.map f) = (chunks (size + 1) items).map (List.map f) := by
  induction items using row_induction size with
  | nil => simp [chunks]
  | last row hne hle =>
    have hne' : row.map f ≠ [] := by simpa using hne
    rw [chunks_of_length_le hne hle, chunks_of_length_le hne' (by rwa [List.length_map]),
      List.map_singleton]
  | append row others hrow hne ih =>
    rw [List.map_append, chunks_append hrow, chunks_append (by rwa [List.length_map]), ih,
      List.map_cons]

/-! ## Rows -/

/-- Items in rows of `size`: as few rows as can be, of which only the last may be shorter, and none
is empty. -/
structure InRows (size : Nat) (items : List α) (rows : List (List α)) : Prop where
  flatten : rows.flatten = items
  length : rows.length = (items.length + size - 1) / size
  full : ∀ row ∈ rows.dropLast, row.length = size
  last : ∀ row ∈ rows.getLast?, 0 < row.length ∧ row.length ≤ size

theorem inRows_nil (size : Nat) : InRows (size + 1) ([] : List α) [] where
  flatten := rfl
  length := by
    rw [List.length_nil, List.length_nil, Nat.zero_add, Nat.add_sub_cancel,
      Nat.div_eq_of_lt (Nat.lt_succ_self size)]
  full := by simp
  last := by simp

theorem inRows_singleton {size : Nat} {row : List α} (hne : row ≠ [])
    (h : row.length ≤ size + 1) : InRows (size + 1) row [row] where
  flatten := List.flatten_singleton
  length := by
    have hpos := List.length_pos_iff.mpr hne
    have hquotient : (row.length + size) / (size + 1) = 1 :=
      Nat.div_eq_of_lt_le (by omega) (by omega)
    exact hquotient.symm
  full := by simp
  last := by simpa using ⟨List.length_pos_iff.mpr hne, h⟩

theorem InRows.append {size : Nat} {row others : List α} {rows : List (List α)}
    (h : InRows (size + 1) others rows) (hrow : row.length = size + 1) (hne : others ≠ []) :
    InRows (size + 1) (row ++ others) (row :: rows) := by
  have hrows : rows ≠ [] := by
    rintro rfl
    exact hne h.flatten.symm
  refine ⟨?_, ?_, ?_, ?_⟩
  · rw [List.flatten_cons, h.flatten]
  · have hcount : (row ++ others).length + (size + 1) - 1 =
        others.length + (size + 1) - 1 + (size + 1) := by
      rw [List.length_append]
      omega
    rw [List.length_cons, h.length, hcount, Nat.add_div_right _ (Nat.succ_pos size)]
  · rw [List.dropLast_cons_of_ne_nil hrows]
    exact List.forall_mem_cons.mpr ⟨hrow, h.full⟩
  · rw [List.getLast?_cons_of_ne_nil hrows]
    exact h.last

theorem inRows_chunks (size : Nat) (items : List α) :
    InRows (size + 1) items (chunks (size + 1) items) := by
  induction items using row_induction size with
  | nil =>
    rw [chunks]
    exact inRows_nil size
  | last row hne hle =>
    rw [chunks_of_length_le hne hle]
    exact inRows_singleton hne hle
  | append row others hrow hne ih =>
    rw [chunks_append hrow]
    exact ih.append hrow hne

/-! ## Positions -/

/-- Every row begins at its position in the whole. -/
theorem map_zipIdx_chunks (size : Nat) (items : List α) (start number : Nat) :
    ((chunks (size + 1) items).zipIdx number).map
        (fun row => row.1.zipIdx (start + row.2 * (size + 1))) =
      chunks (size + 1) (items.zipIdx (start + number * (size + 1))) := by
  induction items using row_induction size generalizing number with
  | nil => simp [chunks]
  | last row hne hle =>
    have hne' : row.zipIdx (start + number * (size + 1)) ≠ [] := by simpa using hne
    rw [chunks_of_length_le hne hle, chunks_of_length_le hne' (by rwa [List.length_zipIdx])]
    rfl
  | append row others hrow hne ih =>
    have hnext : start + (number + 1) * (size + 1) =
        start + number * (size + 1) + row.length := by
      rw [Nat.succ_mul, hrow, Nat.add_assoc]
    rw [chunks_append hrow, List.zipIdx_cons, List.map_cons, ih, hnext, List.zipIdx_append,
      chunks_append (by rwa [List.length_zipIdx])]

/-! ## Commas -/

theorem commaSeparated_eq_zipIdx (items : List String) :
    commaSeparated items =
      items.zipIdx.map fun item => item.1 ++ if item.2 + 1 = items.length then "" else "," := by
  rcases List.eq_nil_or_concat items with rfl | ⟨others, last, rfl⟩
  · rfl
  · have hothers : others.zipIdx.map (fun item =>
        item.1 ++ if item.2 + 1 = others.length + 1 then "" else ",") = others.map (· ++ ",") := by
      apply List.ext_getElem?
      intro i
      rw [List.getElem?_map, List.getElem?_map, List.getElem?_zipIdx, Option.map_map]
      cases hi : others[i]? with
      | none => rfl
      | some item =>
        obtain ⟨hlt, -⟩ := List.getElem?_eq_some_iff.mp hi
        have hne : 0 + i + 1 ≠ others.length + 1 := by omega
        simp only [Option.map_some, Function.comp_apply, if_neg hne]
    rw [List.concat_eq_append, commaSeparated_append_of_ne_nil _ (List.cons_ne_nil _ _),
      List.zipIdx_append, List.map_append, List.length_append, List.length_singleton, hothers]
    simp [commaSeparated]

theorem commaSeparated_ne_nil {items : List String} (h : items ≠ []) :
    commaSeparated items ≠ [] := by
  cases items with
  | nil => contradiction
  | cons item rest => cases rest <;> exact List.cons_ne_nil _ _

theorem length_commaSeparated (items : List String) :
    (commaSeparated items).length = items.length := by
  rw [commaSeparated_eq_zipIdx, List.length_map, List.length_zipIdx]

/-- A space and a comma join what a space joins, if the comma is part of the cell. -/
theorem intercalate_comma_append {items : List String} (h : items ≠ []) :
    ", ".intercalate items ++ "," = " ".intercalate (items.map (· ++ ",")) := by
  have hcomma : ", " = "," ++ " " := by decide
  induction items with
  | nil => contradiction
  | cons item rest ih =>
    cases rest with
    | nil => rw [String.intercalate_singleton, List.map_singleton, String.intercalate_singleton]
    | cons next others =>
      have hrest := ih (List.cons_ne_nil _ _)
      rw [List.map_cons] at hrest
      rw [String.intercalate_cons_cons, List.map_cons, List.map_cons, String.intercalate_cons_cons,
        ← hrest, hcomma]
      simp only [String.append_assoc]

theorem intercalate_comma (items : List String) :
    ", ".intercalate items = " ".intercalate (commaSeparated items) := by
  have hcomma : ", " = "," ++ " " := by decide
  induction items with
  | nil => rfl
  | cons item rest ih =>
    cases rest with
    | nil => rfl
    | cons next others =>
      have hne : commaSeparated (next :: others) ≠ [] :=
        commaSeparated_ne_nil (List.cons_ne_nil _ _)
      rw [String.intercalate_cons_cons, ih, commaSeparated, String.intercalate_cons_of_ne_nil hne,
        hcomma]
      simp only [String.append_assoc]

/-- The rows of a list with commas between them are the rows of its cells. -/
theorem commaSeparated_chunks (size : Nat) (items : List String) :
    commaSeparated ((chunks (size + 1) items).map ", ".intercalate) =
      (chunks (size + 1) (commaSeparated items)).map " ".intercalate := by
  induction items using row_induction size with
  | nil => simp [chunks, commaSeparated]
  | last row hne hle =>
    have hcells : (commaSeparated row).length ≤ size + 1 := by rwa [length_commaSeparated]
    rw [chunks_of_length_le hne hle, chunks_of_length_le (commaSeparated_ne_nil hne) hcells,
      List.map_singleton, List.map_singleton, commaSeparated, intercalate_comma]
  | append row others hrow hne ih =>
    have hcells : (row.map (· ++ ",")).length = size + 1 := by rwa [List.length_map]
    have hrow' : row ≠ [] := List.ne_nil_of_length_pos (by omega)
    have hrest : (chunks (size + 1) others).map ", ".intercalate ≠ [] := by
      have hflatten := flatten_chunks (size + 1) others
      intro hnil
      rw [List.map_eq_nil_iff.mp hnil] at hflatten
      exact hne hflatten.symm
    rw [chunks_append hrow, commaSeparated_append_of_ne_nil row hne, chunks_append hcells,
      List.map_cons, List.map_cons, ← ih, ← intercalate_comma_append hrow']
    exact commaSeparated_append_of_ne_nil [_] hrest

end BitFont.Listing
