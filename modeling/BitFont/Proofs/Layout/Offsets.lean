import BitFont.Layout
import Mathlib.Algebra.GroupWithZero.Nat
import Mathlib.Data.List.Induction

/-!
# Offsets of a layout

Placing data one behind the other keeps one invariant: entry `i` has the index `i` and the `i`-th
identifier and size, and its offset is the sum of the sizes in front of it. Data that is placed
behind other data has the places of a layout of its own, moved on (`ofSizes_append`).
-/

namespace BitFont.Layout

/-- The number of bytes that a list of sizes takes. -/
def span (sizes : List (String × Nat)) : Nat := (sizes.map (·.2)).sum

@[simp] theorem span_nil : span [] = 0 := rfl

@[simp] theorem span_append (sizes others : List (String × Nat)) :
    span (sizes ++ others) = span sizes + span others := by
  rw [span, List.map_append, List.sum_append, span, span]

@[simp] theorem span_singleton (item : String × Nat) : span [item] = item.2 := by
  simp [span]

theorem ofSizes_concat (sizes : List (String × Nat)) (item : String × Nat) :
    ofSizes (sizes ++ [item]) = ((ofSizes sizes).place item.1 item.2).2 := by
  rw [ofSizes, List.foldl_append]
  rfl

theorem totalSize_ofSizes (sizes : List (String × Nat)) :
    (ofSizes sizes).totalSize = span sizes := by
  induction sizes using List.reverseRecOn with
  | nil => rfl
  | append_singleton sizes item ih =>
    rw [ofSizes_concat, span_append, span_singleton, ← ih]
    rfl

theorem size_entries_ofSizes (sizes : List (String × Nat)) :
    (ofSizes sizes).entries.size = sizes.length := by
  induction sizes using List.reverseRecOn with
  | nil => rfl
  | append_singleton sizes item ih =>
    rw [ofSizes_concat, List.length_append, ← ih]
    exact Array.size_push _

/-- Every entry says where its data lies: behind the data of all entries in front of it. -/
theorem getElem?_entries_ofSizes (sizes : List (String × Nat)) (i : Nat) :
    (ofSizes sizes).entries[i]? = sizes[i]?.map fun item =>
      { id := item.1, index := i, offset := span (sizes.take i), size := item.2 } := by
  induction sizes using List.reverseRecOn with
  | nil => simp [ofSizes]
  | append_singleton sizes item ih =>
    have hsize := size_entries_ofSizes sizes
    have hpush : (ofSizes (sizes ++ [item])).entries =
        (ofSizes sizes).entries.push
          { id := item.1, index := sizes.length, offset := span sizes, size := item.2 } := by
      rw [ofSizes_concat, ← hsize, ← totalSize_ofSizes]
      rfl
    rw [hpush, Array.getElem?_push, hsize]
    rcases Nat.lt_trichotomy i sizes.length with hlt | rfl | hgt
    · have htake : (sizes ++ [item]).take i = sizes.take i :=
        List.take_append_of_le_length (Nat.le_of_lt hlt)
      rw [if_neg (Nat.ne_of_lt hlt), ih, htake, List.getElem?_append_left hlt]
    · simp
    · have hbeyond : sizes.length ≤ i := Nat.le_of_lt hgt
      have hnone : (sizes ++ [item])[i]? = none := by
        rw [List.getElem?_eq_none_iff, List.length_append, List.length_singleton]
        omega
      rw [if_neg (Nat.ne_of_gt hgt), ih, List.getElem?_eq_none hbeyond, hnone]
      rfl

/-- The entry behind some entries and bytes more. -/
def Entry.shift (count bytes : Nat) (entry : Entry) : Entry :=
  { entry with index := entry.index + count, offset := entry.offset + bytes }

theorem ofSizes_append (sizes others : List (String × Nat)) :
    ofSizes (sizes ++ others) =
      { entries := (ofSizes sizes).entries ++
          (ofSizes others).entries.map (Entry.shift sizes.length (span sizes))
        totalSize := span sizes + span others } := by
  induction others using List.reverseRecOn with
  | nil =>
    rw [List.append_nil, ← totalSize_ofSizes]
    simp [ofSizes]
  | append_singleton others item ih =>
    have hindex : (ofSizes sizes).entries.size + (ofSizes others).entries.size =
        (ofSizes others).entries.size + sizes.length := by
      rw [size_entries_ofSizes, Nat.add_comm]
    have hoffset : span sizes + span others = (ofSizes others).totalSize + span sizes := by
      rw [totalSize_ofSizes, Nat.add_comm]
    rw [← List.append_assoc, ofSizes_concat, ih, ofSizes_concat, span_append, span_singleton]
    simp only [place, Array.size_append, Array.size_map, Array.map_push, Array.append_push,
      Entry.shift, hindex, hoffset, mk.injEq, true_and]
    omega

end BitFont.Layout
