import BitFont.Run.Decoder

/-!
# Streams of items

What `next?`, `items?` and `decodeExactly?` read off a stream that was written item by item. Only
items with a count between one and `maxCount` can be written, and a stream splits into such items
in at most one way: `items?` finds them exactly when they are there (`items?_eq_some_iff`).
-/

namespace BitFont.Run

/-- The byte that an item repeats. -/
def value : Run → UInt8
  | zero => 0
  | copies _ value => value

/-- An item whose count can be written: a byte other than zero, which would be a lone zero. -/
def Writable : Run → Prop
  | zero => True
  | copies count _ => 0 < count ∧ count ≤ maxCount

theorem Writable.length_pos {run : Run} (h : run.Writable) : 0 < run.length := by
  cases run with
  | zero => exact Nat.one_pos
  | copies count value => exact h.1

theorem Writable.length_le {run : Run} (h : run.Writable) : run.length ≤ maxCount := by
  cases run with
  | zero => exact (by decide : 1 ≤ maxCount)
  | copies count value => exact h.2

/-- A count that can be written is read back as it was. -/
theorem toNat_ofNat_count {count : Nat} (h : count ≤ maxCount) :
    (UInt8.ofNat count).toNat = count := by
  have hlt : count < 2 ^ 8 := by unfold maxCount at h; omega
  rw [UInt8.toNat_ofNat', Nat.mod_eq_of_lt hlt]

theorem ofNat_count_ne_zero {count : Nat} (hpos : 0 < count) (hle : count ≤ maxCount) :
    UInt8.ofNat count ≠ 0 := by
  intro hzero
  have hcount := toNat_ofNat_count hle
  rw [hzero] at hcount
  simp at hcount
  omega

theorem next?_bytes_append {run : Run} (h : run.Writable) (rest : List UInt8) :
    next? (run.bytes ++ rest) = some (run, rest) := by
  cases run with
  | zero => rfl
  | copies count value =>
    obtain ⟨hpos, hle⟩ := h
    simp [bytes, next?, ofNat_count_ne_zero hpos hle, toNat_ofNat_count hle]

/-- Whatever is read could have been written: nothing else begins with the bytes of the item. -/
theorem eq_append_of_next? {stream rest : List UInt8} {run : Run}
    (h : next? stream = some (run, rest)) : run.Writable ∧ stream = run.bytes ++ rest := by
  unfold next? at h
  split at h
  · contradiction
  · rename_i count tail
    split at h
    · rename_i hzero
      simp only [Option.some.injEq, Prod.mk.injEq] at h
      obtain ⟨rfl, rfl⟩ := h
      exact ⟨trivial, by rw [hzero]; rfl⟩
    · rename_i hne
      split at h
      · contradiction
      · rename_i value tail
        simp only [Option.some.injEq, Prod.mk.injEq] at h
        obtain ⟨rfl, rfl⟩ := h
        have hcount : count.toNat ≠ 0 := by
          intro hzero
          exact hne (UInt8.toNat_inj.mp hzero)
        have hlt := count.toNat_lt
        refine ⟨⟨by omega, by unfold maxCount; omega⟩, ?_⟩
        simp [bytes]

theorem items?_nil : items? [] = some [] := by
  rw [items?]
  rfl

theorem items?_of_next? {stream rest : List UInt8} {run : Run}
    (h : next? stream = some (run, rest)) : items? stream = (items? rest).map (run :: ·) := by
  rw [items?]
  split
  · rename_i hnone
    rw [h] at hnone
    contradiction
  · rename_i run' rest' hsome
    rw [h] at hsome
    simp only [Option.some.injEq, Prod.mk.injEq] at hsome
    obtain ⟨rfl, rfl⟩ := hsome
    rfl

/-- Items that are written one behind the other are read back. -/
theorem items?_flatMap_bytes {runs : List Run} (h : ∀ run ∈ runs, run.Writable) :
    items? (runs.flatMap bytes) = some runs := by
  induction runs with
  | nil => exact items?_nil
  | cons run rest ih =>
    obtain ⟨hrun, hrest⟩ := List.forall_mem_cons.mp h
    rw [List.flatMap_cons, items?_of_next? (next?_bytes_append hrun _), ih hrest]
    rfl

/-- A stream is read as the items that write it, and as no others. -/
theorem items?_eq_some_iff {stream : List UInt8} {runs : List Run} :
    items? stream = some runs ↔
      (∀ run ∈ runs, run.Writable) ∧ runs.flatMap bytes = stream := by
  constructor
  · intro h
    fun_induction items? stream generalizing runs with
    | case1 stream hnone hempty =>
      simp only [Option.some.injEq] at h
      subst h
      exact ⟨by simp, by simpa using hempty.symm⟩
    | case2 stream hnone hne => contradiction
    | case3 stream run rest hsome hlt ih =>
      obtain ⟨tail, htail, rfl⟩ := Option.map_eq_some_iff.mp h
      obtain ⟨hwritable, rfl⟩ := eq_append_of_next? hsome
      obtain ⟨hall, hbytes⟩ := ih htail
      exact ⟨List.forall_mem_cons.mpr ⟨hwritable, hall⟩, by rw [List.flatMap_cons, hbytes]⟩
  · rintro ⟨hwritable, rfl⟩
    exact items?_flatMap_bytes hwritable

theorem decodeExactly?_of_next? {wanted : Nat} {stream rest : List UInt8} {run : Run}
    (h : next? stream = some (run, rest)) (hpos : 0 < wanted) (hle : run.length ≤ wanted) :
    decodeExactly? wanted stream =
      (decodeExactly? (wanted - run.length) rest).map fun found =>
        (run.expand ++ found.1, found.2) := by
  obtain ⟨n, rfl⟩ : ∃ n, wanted = n + 1 := ⟨wanted - 1, by omega⟩
  rw [decodeExactly?]
  split
  · rename_i hnone
    rw [h] at hnone
    contradiction
  · rename_i run' rest' hsome
    rw [h] at hsome
    simp only [Option.some.injEq, Prod.mk.injEq] at hsome
    obtain ⟨rfl, rfl⟩ := hsome
    rw [if_pos hle]

/-- Reading as many bytes as the items stand for takes exactly their bytes off the stream, whatever
stands behind them. No item is empty, so the reader is not done before the last one. -/
theorem decodeExactly?_flatMap_bytes_append {runs : List Run} (h : ∀ run ∈ runs, run.Writable)
    (rest : List UInt8) :
    decodeExactly? (runs.flatMap expand).length (runs.flatMap bytes ++ rest) =
      some (runs.flatMap expand, rest) := by
  induction runs with
  | nil =>
    rw [List.flatMap_nil, List.flatMap_nil, List.length_nil, decodeExactly?]
    rfl
  | cons run runs ih =>
    obtain ⟨hrun, hrest⟩ := List.forall_mem_cons.mp h
    have hpos := hrun.length_pos
    have hlength : ((run :: runs).flatMap expand).length =
        run.length + (runs.flatMap expand).length := by
      rw [List.flatMap_cons, List.length_append, length_expand]
    rw [hlength, List.flatMap_cons, List.append_assoc,
      decodeExactly?_of_next? (next?_bytes_append hrun _) (by omega) (by omega),
      Nat.add_sub_cancel_left, ih hrest]
    rfl

end BitFont.Run
