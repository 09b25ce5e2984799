import BitFont.Proofs.Run.Stream

/-!
# Items of a byte string

`ofBytes` cuts a byte string into stretches of equal bytes, and every stretch into items. Here it
gets one equation, for a byte string that begins with a whole stretch (`ofBytes_replicate_append`),
and an induction that peels stretches off (`stretch_induction`). From these two follow what the
items stand for and that all of them can be written.
-/

namespace BitFont.Run

/-! ## Stretches -/

theorem stretches_cons (byte : UInt8) (bytes : List UInt8) :
    stretches (byte :: bytes) = stretchStep byte (stretches bytes) := rfl

/-- The first stretch repeats the first byte. -/
theorem head?_stretches (bytes : List UInt8) :
    (stretches bytes).head?.map Prod.snd = bytes.head? := by
  cases bytes with
  | nil => rfl
  | cons byte bytes =>
    rw [stretches_cons, List.head?_cons]
    unfold stretchStep
    split
    · rfl
    · split
      · rename_i heq
        rw [heq]
        rfl
      · rfl

theorem stretches_replicate_append {byte : UInt8} {bytes : List UInt8}
    (h : bytes.head? ≠ some byte) (n : Nat) :
    stretches (List.replicate (n + 1) byte ++ bytes) = (n + 1, byte) :: stretches bytes := by
  induction n with
  | zero =>
    rw [List.replicate_one, List.singleton_append, stretches_cons]
    have hhead := head?_stretches bytes
    cases hs : stretches bytes with
    | nil => rfl
    | cons stretch rest =>
      rw [hs] at hhead
      have hne : byte ≠ stretch.2 := by
        rintro rfl
        exact h hhead.symm
      simp [stretchStep, hne]
  | succ n ih =>
    rw [List.replicate_succ, List.cons_append, stretches_cons, ih]
    simp [stretchStep]

/-- Every byte string begins with a whole stretch of a given byte, perhaps an empty one. -/
theorem exists_replicate_append (byte : UInt8) (bytes : List UInt8) :
    ∃ n rest, bytes = List.replicate n byte ++ rest ∧ rest.head? ≠ some byte := by
  induction bytes with
  | nil => exact ⟨0, [], rfl, by simp⟩
  | cons first bytes ih =>
    by_cases hfirst : first = byte
    · subst hfirst
      obtain ⟨n, rest, rfl, hrest⟩ := ih
      exact ⟨n + 1, rest, by rw [List.replicate_succ, List.cons_append], hrest⟩
    · exact ⟨0, first :: bytes, rfl, by simpa using hfirst⟩

/-- Induction that takes whole stretches off the front of a byte string. -/
@[elab_as_elim]
theorem stretch_induction {motive : List UInt8 → Prop} (bytes : List UInt8) (nil : motive [])
    (append : ∀ (n : Nat) (byte : UInt8) (rest : List UInt8), rest.head? ≠ some byte →
      motive rest → motive (List.replicate (n + 1) byte ++ rest)) : motive bytes := by
  induction hlength : bytes.length using Nat.strongRecOn generalizing bytes with
  | ind length ih =>
    cases bytes with
    | nil => exact nil
    | cons byte bytes =>
      obtain ⟨n, rest, rfl, hrest⟩ := exists_replicate_append byte bytes
      have hshorter : rest.length < length := by
        subst hlength
        simp only [List.length_cons, List.length_append, List.length_replicate]
        omega
      rw [← List.cons_append, ← List.replicate_succ]
      exact append n byte rest hrest (ih rest.length hshorter rest rfl)

/-! ## The items of one stretch -/

theorem expand_eq_replicate (run : Run) : run.expand = List.replicate run.length run.value := by
  cases run <;> rfl

@[simp] theorem ofStretch_zero (byte : UInt8) : ofStretch 0 byte = [] := rfl

theorem ofStretch_add_maxCount (count : Nat) (byte : UInt8) :
    ofStretch (maxCount + count) byte = copies maxCount byte :: ofStretch count byte := by
  have hdiv : (maxCount + count) / maxCount = count / maxCount + 1 := by
    unfold maxCount
    omega
  have hmod : (maxCount + count) % maxCount = count % maxCount := by
    unfold maxCount
    omega
  rw [ofStretch, hdiv, hmod, List.replicate_succ, List.cons_append, ofStretch]

theorem ofStretch_of_lt {count : Nat} (h : count < maxCount) (byte : UInt8) :
    ofStretch count byte = remainder count byte := by
  rw [ofStretch, Nat.div_eq_of_lt h, Nat.mod_eq_of_lt h, List.replicate_zero, List.nil_append]

theorem writable_of_mem_remainder {count : Nat} {byte : UInt8} {run : Run} (h : count ≤ maxCount)
    (hrun : run ∈ remainder count byte) : run.Writable ∧ run.value = byte := by
  unfold remainder at hrun
  split at hrun
  · simp at hrun
  · split at hrun
    · rename_i hone
      simp only [List.mem_singleton] at hrun
      subst hrun
      exact ⟨trivial, hone.2.symm⟩
    · simp only [List.mem_singleton] at hrun
      subst hrun
      exact ⟨⟨by omega, h⟩, rfl⟩

theorem writable_of_mem_ofStretch {count : Nat} {byte : UInt8} {run : Run}
    (h : run ∈ ofStretch count byte) : run.Writable ∧ run.value = byte := by
  rcases List.mem_append.mp h with hfull | hlast
  · obtain rfl := List.eq_of_mem_replicate hfull
    exact ⟨⟨by decide, Nat.le_refl _⟩, rfl⟩
  · have hlt : count % maxCount < maxCount := Nat.mod_lt _ (by decide)
    exact writable_of_mem_remainder (Nat.le_of_lt hlt) hlast

theorem flatMap_expand_remainder (count : Nat) (byte : UInt8) :
    (remainder count byte).flatMap expand = List.replicate count byte := by
  unfold remainder
  split
  · rename_i hzero
    rw [hzero]
    rfl
  · split
    · rename_i hone
      obtain ⟨rfl, rfl⟩ := hone
      rfl
    · simp [expand]

/-- The items of a stretch stand for the stretch. -/
theorem flatMap_expand_ofStretch (count : Nat) (byte : UInt8) :
    (ofStretch count byte).flatMap expand = List.replicate count byte := by
  induction count using Nat.strongRecOn with
  | ind count ih =>
    by_cases hlt : count < maxCount
    · rw [ofStretch_of_lt hlt, flatMap_expand_remainder]
    · obtain ⟨rest, rfl⟩ := Nat.exists_eq_add_of_le (Nat.le_of_not_lt hlt)
      have hshorter : rest < maxCount + rest := Nat.lt_add_of_pos_left (by decide)
      rw [ofStretch_add_maxCount, List.flatMap_cons, ih rest hshorter, expand,
        List.replicate_append_replicate]

/-! ## The items of a byte string -/

@[simp] theorem ofBytes_nil : ofBytes [] = [] := rfl

/-- A stretch is cut without regard to what stands behind it. -/
theorem ofBytes_replicate_append {byte : UInt8} {bytes : List UInt8}
    (h : bytes.head? ≠ some byte) (n : Nat) :
    ofBytes (List.replicate n byte ++ bytes) = ofStretch n byte ++ ofBytes bytes := by
  cases n with
  | zero => rfl
  | succ n => rw [ofBytes, stretches_replicate_append h, List.flatMap_cons, ofBytes]

/-- `maxCount` equal bytes at the front are an item of their own, even inside a longer stretch. -/
theorem ofBytes_replicate_maxCount_append (byte : UInt8) (bytes : List UInt8) :
    ofBytes (List.replicate maxCount byte ++ bytes) = copies maxCount byte :: ofBytes bytes := by
  -- The bytes behind may go on with the same stretch, so both sides are cut where it ends.
  obtain ⟨n, rest, rfl, hrest⟩ := exists_replicate_append byte bytes
  rw [← List.append_assoc, List.replicate_append_replicate, ofBytes_replicate_append hrest,
    ofBytes_replicate_append hrest, ofStretch_add_maxCount, List.cons_append]

theorem writable_of_mem_ofBytes {bytes : List UInt8} {run : Run} (h : run ∈ ofBytes bytes) :
    run.Writable := by
  obtain ⟨stretch, -, hrun⟩ := List.mem_flatMap.mp h
  exact (writable_of_mem_ofStretch hrun).1

/-- The items of a byte string stand for the byte string. -/
theorem flatMap_expand_ofBytes (bytes : List UInt8) : (ofBytes bytes).flatMap expand = bytes := by
  induction bytes using stretch_induction with
  | nil => rfl
  | append n byte rest hrest ih =>
    rw [ofBytes_replicate_append hrest, List.flatMap_append, flatMap_expand_ofStretch, ih]

/-- Decoding undoes encoding, also as the front of a longer stream. -/
theorem decodeExactly?_encode_append (bytes rest : List UInt8) :
    decodeExactly? bytes.length (encode bytes ++ rest) = some (bytes, rest) := by
  have hwritable : ∀ run ∈ ofBytes bytes, run.Writable :=
    fun _ hrun => writable_of_mem_ofBytes hrun
  have h := decodeExactly?_flatMap_bytes_append hwritable rest
  rwa [flatMap_expand_ofBytes] at h

theorem decode?_encode (bytes : List UInt8) : decode? (encode bytes) = some bytes := by
  rw [decode?, encode, items?_flatMap_bytes fun _ hrun => writable_of_mem_ofBytes hrun,
    Option.map_some, flatMap_expand_ofBytes]

end BitFont.Run
