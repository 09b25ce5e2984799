import BitFont.Proofs.Layout.Tiling
import Mathlib.Data.List.Forall2

/-!
# Layouts in use

A layout is used while it grows: placing data hands out an entry, and at any time a finished copy
may be taken. Every use only adds to what was there before (`History.GrowsInto.step`), so entries and
copies that were handed out stay right whatever is placed afterwards. A run of uses faults when a
word cannot count its bytes, and only then (`History.ofUses?_eq`). At each moment before, the layout
and every copy are determined by the data that had been placed by then
(`History.ofUses?_invariant`).
-/

namespace BitFont.Layout

/-! ## The layout of some data -/

/-- The layout of data that was placed in the order of the list. -/
structure IsLayoutOf (items : List (String × Nat)) (layout : Layout) : Prop where
  entries : ∀ i : Nat, layout.entries[i]? = items[i]?.map fun item =>
    { id := item.1, index := i, offset := span (items.take i), size := item.2 }
  totalSize : layout.totalSize = span items
  /-- Whatever can count the total can count every range. -/
  inside : ∀ entry ∈ layout.entries, entry.offset + entry.size ≤ layout.totalSize
  covered : ∀ position < layout.totalSize, ∃! i : Nat, ∃ entry, layout.entries[i]? = some entry ∧
    entry.offset ≤ position ∧ position < entry.offset + entry.size
  /-- The earliest entry with an identifier is the one that is found. -/
  found : ∀ id entry, layout.get? id = some entry ↔
    ∃ i : Nat, layout.entries[i]? = some entry ∧ entry.id = id ∧
      ∀ j < i, ∀ other ∈ items[j]?, other.1 ≠ id
  missing : ∀ id, layout.get? id = none ↔ ∀ item ∈ items, item.1 ≠ id

/-- An entry knows its own index, so the entry of a position is found at one index only. -/
theorem existsUnique_index (items : List (String × Nat)) {position : Nat}
    (h : position < (ofSizes items).totalSize) :
    ∃! i : Nat, ∃ entry, (ofSizes items).entries[i]? = some entry ∧
      entry.offset ≤ position ∧ position < entry.offset + entry.size := by
  obtain ⟨entry, ⟨hmem, hrange⟩, hunique⟩ := existsUnique_entry items h
  obtain ⟨i, hi⟩ := Array.getElem?_of_mem hmem
  refine ⟨i, ⟨entry, hi, hrange⟩, ?_⟩
  rintro j ⟨other, hj, hrange'⟩
  obtain rfl : other = entry := hunique other ⟨Array.mem_of_getElem? hj, hrange'⟩
  rw [← (index_offset_of_getElem? hi).1, ← (index_offset_of_getElem? hj).1]

theorem id_of_getElem? {items : List (String × Nat)} {i : Nat} {entry : Entry}
    (h : (ofSizes items).entries[i]? = some entry) :
    ∃ item, items[i]? = some item ∧ item.1 = entry.id := by
  rw [getElem?_entries_ofSizes] at h
  obtain ⟨item, hitem, rfl⟩ := Option.map_eq_some_iff.mp h
  exact ⟨item, hitem, rfl⟩

theorem get?_eq_some_iff {items : List (String × Nat)} {id : String} {entry : Entry} :
    (ofSizes items).get? id = some entry ↔
      ∃ i : Nat, (ofSizes items).entries[i]? = some entry ∧ entry.id = id ∧
        ∀ j < i, ∀ other ∈ items[j]?, other.1 ≠ id := by
  rw [get?, Array.find?_eq_some_iff_getElem]
  constructor
  · rintro ⟨hid, i, hi, rfl, hbefore⟩
    refine ⟨i, Array.getElem?_eq_getElem hi, by simpa using hid, ?_⟩
    intro j hj other hother hsame
    have hentry := Array.getElem?_eq_getElem (Nat.lt_trans hj hi)
    obtain ⟨item, hitem, hitemid⟩ := id_of_getElem? hentry
    obtain rfl : item = other := Option.some.inj (hitem.symm.trans hother)
    have hne := hbefore j hj
    rw [← hitemid, hsame] at hne
    simp at hne
  · rintro ⟨i, hentry, hid, hbefore⟩
    obtain ⟨hi, rfl⟩ := Array.getElem?_eq_some_iff.mp hentry
    refine ⟨by simpa using hid, i, hi, rfl, ?_⟩
    intro j hj
    obtain ⟨item, hitem, hitemid⟩ :=
      id_of_getElem? (Array.getElem?_eq_getElem (Nat.lt_trans hj hi))
    have hne := hbefore j hj item hitem
    rw [hitemid] at hne
    simpa using hne

theorem get?_eq_none_iff {items : List (String × Nat)} {id : String} :
    (ofSizes items).get? id = none ↔ ∀ item ∈ items, item.1 ≠ id := by
  constructor
  · rw [get?, Array.find?_eq_none]
    intro hnone item hitem hsame
    obtain ⟨i, hi⟩ := List.getElem?_of_mem hitem
    have hentry := getElem?_entries_ofSizes items i
    rw [hi, Option.map_some] at hentry
    exact hnone _ (Array.mem_of_getElem? hentry) (by simpa using hsame)
  · intro hall
    apply get?_eq_none
    intro entry hmem
    obtain ⟨i, hi⟩ := Array.getElem?_of_mem hmem
    obtain ⟨item, hitem, hid⟩ := id_of_getElem? hi
    rw [← hid]
    exact hall item (List.mem_of_getElem? hitem)

theorem isLayoutOf_ofSizes (items : List (String × Nat)) : IsLayoutOf items (ofSizes items) where
  entries := getElem?_entries_ofSizes items
  totalSize := totalSize_ofSizes items
  inside := fun _ hentry => offset_add_size_le hentry
  covered := fun _ hposition => existsUnique_index items hposition
  found := fun _ _ => get?_eq_some_iff
  missing := fun _ => get?_eq_none_iff

/-! ## Uses -/

/-- One use of a layout that is being made. -/
inductive Use where
  | place (id : String) (size : Nat)
  /-- A finished copy is taken. -/
  | copy
  deriving DecidableEq, Repr

namespace Use

def item? : Use → Option (String × Nat)
  | place id size => some (id, size)
  | copy => none

/-- The data that was placed, in order. -/
def placed (uses : List Use) : List (String × Nat) := uses.filterMap item?

/-- For every copy, in order, the data that had been placed when it was taken. -/
def placedAtCopies (before : List (String × Nat)) : List Use → List (List (String × Nat))
  | [] => []
  | place id size :: rest => placedAtCopies (before ++ [(id, size)]) rest
  | copy :: rest => before :: placedAtCopies before rest

theorem placed_concat_place (uses : List Use) (id : String) (size : Nat) :
    placed (uses ++ [place id size]) = placed uses ++ [(id, size)] := by
  simp [placed, item?]

theorem placed_concat_copy (uses : List Use) : placed (uses ++ [copy]) = placed uses := by
  simp [placed, item?]

theorem placedAtCopies_append (before : List (String × Nat)) (uses others : List Use) :
    placedAtCopies before (uses ++ others) =
      placedAtCopies before uses ++ placedAtCopies (before ++ placed uses) others := by
  induction uses generalizing before with
  | nil => simp [placedAtCopies, placed]
  | cons use rest ih =>
    cases use with
    | place id size =>
      simp only [List.cons_append, placedAtCopies, ih, placed, List.filterMap_cons, item?,
        List.append_assoc, List.nil_append]
    | copy => simp only [List.cons_append, placedAtCopies, ih, placed, List.filterMap_cons, item?]

end Use

/-- A layout in use, with all that it has handed out. -/
structure History where
  layout : Layout := {}
  /-- The entries that placing has returned, in order. -/
  returned : List Entry := []
  copies : List Layout := []

namespace History

def step (history : History) : Use → History
  | .place id size =>
    let placed := history.layout.place id size
    { history with layout := placed.2, returned := history.returned ++ [placed.1] }
  | .copy => { history with copies := history.copies ++ [history.layout] }

def ofUses (uses : List Use) : History := uses.foldl step {}

/-- A step that counts in words. -/
def step? (history : History) : Use → Option History
  | .place id size =>
    (history.layout.place? id size).map fun placed =>
      { history with layout := placed.2, returned := history.returned ++ [placed.1] }
  | .copy => some { history with copies := history.copies ++ [history.layout] }

/-- What uses make, unless one of them faults. -/
def ofUses? (uses : List Use) : Option History := uses.foldlM step? {}

theorem ofUses_concat (uses : List Use) (use : Use) :
    ofUses (uses ++ [use]) = (ofUses uses).step use := by
  rw [ofUses, List.foldl_append]
  rfl

/-! ## What one use adds -/

/-- What was there and what was handed out is still there, in its old place. -/
structure GrowsInto (history later : History) : Prop where
  entries : history.layout.entries.toList <+: later.layout.entries.toList
  returned : history.returned <+: later.returned
  copies : history.copies <+: later.copies

namespace GrowsInto

theorem refl (history : History) : history.GrowsInto history :=
  ⟨List.prefix_rfl, List.prefix_rfl, List.prefix_rfl⟩

theorem trans {history later last : History} (h : history.GrowsInto later)
    (hlast : later.GrowsInto last) : history.GrowsInto last where
  entries := h.entries.trans hlast.entries
  returned := h.returned.trans hlast.returned
  copies := h.copies.trans hlast.copies

theorem step (history : History) (use : Use) : history.GrowsInto (history.step use) := by
  cases use with
  | place id size =>
    refine ⟨?_, List.prefix_append _ _, List.prefix_rfl⟩
    show _ <+: (history.layout.entries.push _).toList
    rw [Array.toList_push]
    exact List.prefix_append _ _
  | copy => exact ⟨List.prefix_rfl, List.prefix_rfl, List.prefix_append _ _⟩

theorem ofUses_append (uses later : List Use) :
    (ofUses uses).GrowsInto (ofUses (uses ++ later)) := by
  induction later using List.reverseRecOn with
  | nil => rw [List.append_nil]; exact refl _
  | append_singleton later use ih =>
    rw [← List.append_assoc, ofUses_concat]
    exact ih.trans (step _ use)

end GrowsInto

/-! ## Whole runs -/

theorem layout_ofUses (uses : List Use) : (ofUses uses).layout = ofSizes (Use.placed uses) := by
  induction uses using List.reverseRecOn with
  | nil => rfl
  | append_singleton uses use ih =>
    rw [ofUses_concat]
    cases use with
    | place id size => rw [Use.placed_concat_place, ofSizes_concat, ← ih]; rfl
    | copy => rw [Use.placed_concat_copy, ← ih]; rfl

theorem returned_ofUses (uses : List Use) :
    (ofUses uses).returned = (ofUses uses).layout.entries.toList := by
  induction uses using List.reverseRecOn with
  | nil => rfl
  | append_singleton uses use ih =>
    rw [ofUses_concat]
    cases use with
    | place id size => simp [step, place, ih]
    | copy => exact ih

theorem copies_ofUses (uses : List Use) :
    (ofUses uses).copies = (Use.placedAtCopies [] uses).map ofSizes := by
  induction uses using List.reverseRecOn with
  | nil => rfl
  | append_singleton uses use ih =>
    rw [ofUses_concat, Use.placedAtCopies_append, List.nil_append, List.map_append, ← ih]
    cases use with
    | place id size => simp [step, Use.placedAtCopies]
    | copy => simp [step, Use.placedAtCopies, layout_ofUses]

/-! ## Words -/

theorem ofUses?_concat (uses : List Use) (use : Use) :
    ofUses? (uses ++ [use]) = (ofUses? uses).bind fun history => history.step? use := by
  rw [ofUses?, List.foldlM_append]
  exact congrArg (Option.bind _) (funext fun history => Option.bind_fun_some _)

theorem step?_place (history : History) (id : String) (size : Nat) :
    history.step? (.place id size) =
      if history.layout.totalSize + size ≤ maxTotal then some (history.step (.place id size))
      else none := by
  rw [step?, place?]
  split <;> rfl

/-- A run faults if a word cannot count all its bytes, and else counts as if there were no words. -/
theorem ofUses?_eq (uses : List Use) :
    ofUses? uses = if span (Use.placed uses) ≤ maxTotal then some (ofUses uses) else none := by
  induction uses using List.reverseRecOn with
  | nil => rfl
  | append_singleton uses use ih =>
    rw [ofUses?_concat, ih, ofUses_concat]
    cases use with
    | place id size =>
      have hspan : span (Use.placed (uses ++ [.place id size])) =
          span (Use.placed uses) + size := by
        rw [Use.placed_concat_place, span_append, span_singleton]
      by_cases hbefore : span (Use.placed uses) ≤ maxTotal
      · rw [if_pos hbefore, Option.bind_some, step?_place, layout_ofUses, totalSize_ofSizes, hspan]
      · have hafter : ¬ span (Use.placed uses) + size ≤ maxTotal := by omega
        rw [if_neg hbefore, hspan, if_neg hafter, Option.bind_none]
    | copy =>
      rw [Use.placed_concat_copy]
      split <;> rfl

/-- A run of uses faults if their bytes are too many for a word, and for no other reason. After any
other the layout is that of all data placed so far, and every copy is that of the data placed before
it was taken. The entries that were returned are those of the layout, the last one being the last,
and later uses change neither entries nor copies. -/
theorem ofUses?_invariant (uses : List Use) :
    (ofUses? uses = none ↔ maxTotal < span (Use.placed uses)) ∧
      ∀ history, ofUses? uses = some history →
        IsLayoutOf (Use.placed uses) history.layout ∧
          List.Forall₂ IsLayoutOf (Use.placedAtCopies [] uses) history.copies ∧
          history.returned = history.layout.entries.toList ∧
          (∀ id size placed next, history.layout.place? id size = some (placed, next) →
            next.entries.back? = some placed) ∧
          ∀ later last, ofUses? (uses ++ later) = some last → history.GrowsInto last := by
  constructor
  · rw [ofUses?_eq]
    split <;> simp <;> omega
  · intro history h
    rw [ofUses?_eq, Option.ite_none_right_eq_some] at h
    obtain ⟨-, h⟩ := h
    obtain rfl : ofUses uses = history := Option.some.inj h
    refine ⟨?_, ?_, returned_ofUses uses, ?_, ?_⟩
    · rw [layout_ofUses]
      exact isLayoutOf_ofSizes _
    · rw [copies_ofUses, List.forall₂_map_right_iff, List.forall₂_same]
      exact fun items _ => isLayoutOf_ofSizes items
    · intro id size placed next hplaced
      rw [place?, Option.ite_none_right_eq_some] at hplaced
      obtain ⟨rfl, rfl⟩ := Prod.mk.inj (Option.some.inj hplaced.2)
      exact Array.back?_push ..
    · intro later last hlast
      rw [ofUses?_eq, Option.ite_none_right_eq_some] at hlast
      rw [← Option.some.inj hlast.2]
      exact .ofUses_append uses later

/-- Two copies, one of them between two entries of one name, and ranges of no bytes. -/
example :
    let history := ofUses [.place "A" 3, .copy, .place "B" 0, .place "A" 2, .copy, .place "C" 0]
    history.layout.offsets = [0, 3, 3, 5] ∧ history.copies.map (·.totalSize) = [3, 5] ∧
      history.copies.map (·.get? "A") = [some ⟨"A", 0, 0, 3⟩, some ⟨"A", 0, 0, 3⟩] := by
  decide

/-- The longest stream takes more data of no bytes. -/
example : (ofUses? [.place "A" maxTotal, .place "B" 0]).isSome ∧
    ofUses? [.place "A" maxTotal, .place "B" 1, .place "C" 5] = none := by
  decide

end History

end BitFont.Layout
