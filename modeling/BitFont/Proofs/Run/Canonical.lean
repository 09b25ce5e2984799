import BitFont.Proofs.Run.Stretches
import Mathlib.Data.List.Chain

/-!
# Canonical streams

A byte string can be written as items in many ways. The encoder's way is singled out by two
conditions on the items alone: a lone zero is never written as a pair, and an item is followed by
another one of its value only if it is full. Items under these conditions are the items of the
bytes that they stand for (`ofBytes_flatMap_expand`), so encoding is a bijection between byte
strings and the streams of such items, and decoding is its inverse.
-/

namespace BitFont.Run

/-- Items without a pair for a lone zero, in which items of one value follow each other only behind
a full one. -/
structure Canonical (runs : List Run) : Prop where
  writable : ∀ run ∈ runs, run.Writable
  lone_zero : copies 1 0 ∉ runs
  full : runs.IsChain fun run next => run.value = next.value → run.length = maxCount

/-- A stream that splits completely into canonical items. -/
def CanonicalStream (stream : List UInt8) : Prop :=
  ∃ runs, Canonical runs ∧ runs.flatMap bytes = stream

instance (run : Run) : Decidable run.Writable :=
  match run with
  | zero => .isTrue trivial
  | copies count _ => inferInstanceAs (Decidable (0 < count ∧ count ≤ maxCount))

instance (runs : List Run) : Decidable (Canonical runs) :=
  decidable_of_iff
    ((∀ run ∈ runs, run.Writable) ∧ copies 1 0 ∉ runs ∧
      runs.IsChain fun run next => run.value = next.value → run.length = maxCount)
    ⟨fun h => ⟨h.1, h.2.1, h.2.2⟩, fun h => ⟨h.writable, h.lone_zero, h.full⟩⟩

theorem canonical_nil : Canonical [] := ⟨by simp, by simp, .nil⟩

theorem Canonical.tail {run : Run} {runs : List Run} (h : Canonical (run :: runs)) :
    Canonical runs where
  writable := fun item hitem => h.writable item (List.mem_cons_of_mem _ hitem)
  lone_zero := fun hmem => h.lone_zero (List.mem_cons_of_mem _ hmem)
  full := h.full.tail

theorem Canonical.append {runs others : List Run} (h : Canonical runs) (hothers : Canonical others)
    (hne : ∀ run ∈ runs, ∀ next ∈ others.head?, run.value ≠ next.value) :
    Canonical (runs ++ others) where
  writable := by
    intro run hrun
    rcases List.mem_append.mp hrun with hleft | hright
    · exact h.writable run hleft
    · exact hothers.writable run hright
  lone_zero := by
    intro hmem
    rcases List.mem_append.mp hmem with hleft | hright
    · exact h.lone_zero hleft
    · exact hothers.lone_zero hright
  full := by
    apply h.full.append hothers.full
    intro run hrun next hnext hsame
    exact absurd hsame (hne run (List.mem_of_getLast? hrun) next hnext)

/-! ## The items of a byte string are canonical -/

theorem canonical_remainder {count : Nat} (h : count ≤ maxCount) (byte : UInt8) :
    Canonical (remainder count byte) := by
  refine ⟨fun run hrun => (writable_of_mem_remainder h hrun).1, ?_, ?_⟩
  · intro hmem
    unfold remainder at hmem
    split at hmem
    · simp at hmem
    · split at hmem
      · simp at hmem
      · rename_i hpair
        simp only [List.mem_singleton, copies.injEq] at hmem
        exact hpair ⟨hmem.1.symm, hmem.2.symm⟩
  · unfold remainder
    split
    · exact .nil
    · split <;> exact .singleton _

theorem canonical_ofStretch (count : Nat) (byte : UInt8) : Canonical (ofStretch count byte) := by
  induction count using Nat.strongRecOn with
  | ind count ih =>
    by_cases hlt : count < maxCount
    · rw [ofStretch_of_lt hlt]
      exact canonical_remainder (Nat.le_of_lt hlt) byte
    · obtain ⟨rest, rfl⟩ := Nat.exists_eq_add_of_le (Nat.le_of_not_lt hlt)
      have hrest := ih rest (Nat.lt_add_of_pos_left (by decide))
      have hall : ∀ run ∈ ofStretch (maxCount + rest) byte, run.Writable :=
        fun _ hrun => (writable_of_mem_ofStretch hrun).1
      rw [ofStretch_add_maxCount] at hall ⊢
      refine ⟨hall, ?_, hrest.full.cons fun _ _ _ => rfl⟩
      intro hmem
      rcases List.mem_cons.mp hmem with heq | hmem
      · simp [maxCount] at heq
      · exact hrest.lone_zero hmem

/-- The first item repeats the first byte. -/
theorem head?_flatMap_expand {runs : List Run} (h : ∀ run ∈ runs, run.Writable) :
    (runs.flatMap expand).head? = runs.head?.map value := by
  cases runs with
  | nil => rfl
  | cons run runs =>
    have hpos := (h run List.mem_cons_self).length_pos
    obtain ⟨n, hn⟩ : ∃ n, run.length = n + 1 := ⟨run.length - 1, by omega⟩
    rw [List.flatMap_cons, expand_eq_replicate, hn, List.replicate_succ, List.cons_append,
      List.head?_cons, List.head?_cons, Option.map_some]

theorem head?_ofBytes (bytes : List UInt8) : (ofBytes bytes).head?.map value = bytes.head? := by
  have h := head?_flatMap_expand fun run (hrun : run ∈ ofBytes bytes) => writable_of_mem_ofBytes hrun
  rw [← h, flatMap_expand_ofBytes]

theorem canonical_ofBytes (bytes : List UInt8) : Canonical (ofBytes bytes) := by
  induction bytes using stretch_induction with
  | nil => exact canonical_nil
  | append n byte rest hrest ih =>
    rw [ofBytes_replicate_append hrest]
    apply (canonical_ofStretch _ _).append ih
    intro run hrun next hnext hsame
    apply hrest
    rw [← head?_ofBytes, hnext, Option.map_some, ← hsame, (writable_of_mem_ofStretch hrun).2]

/-! ## Canonical items are the items of their bytes -/

/-- An item is what becomes of the stretch that it stands for. -/
theorem ofStretch_length_value {run : Run} (h : run.Writable) (hpair : run ≠ copies 1 0) :
    ofStretch run.length run.value = [run] := by
  cases run with
  | zero => rfl
  | copies count byte =>
    obtain ⟨hpos, hle⟩ := h
    rcases Nat.lt_or_eq_of_le hle with hlt | rfl
    · have hzero : count ≠ 0 := by omega
      have hlone : ¬ (count = 1 ∧ byte = 0) := by
        rintro ⟨rfl, rfl⟩
        exact hpair rfl
      rw [length, value, ofStretch_of_lt hlt, remainder, if_neg hzero, if_neg hlone]
    · exact ofStretch_add_maxCount 0 byte

theorem eq_copies_of_length {run : Run} (h : run.length = maxCount) :
    run = copies maxCount run.value := by
  cases run with
  | zero => simp [length, maxCount] at h
  | copies count byte =>
    rw [length] at h
    rw [h, value]

/-- Canonical items are recovered from the bytes that they stand for. An item that is full stands
apart by its length, and any other one because the item behind it has another value. -/
theorem ofBytes_flatMap_expand {runs : List Run} (h : Canonical runs) :
    ofBytes (runs.flatMap expand) = runs := by
  induction runs with
  | nil => rfl
  | cons run runs ih =>
    rw [List.flatMap_cons, expand_eq_replicate]
    -- Only behind a full item may the next one repeat the same byte, and run into its stretch.
    by_cases hfull : run.length = maxCount
    · rw [hfull, ofBytes_replicate_maxCount_append, ih h.tail, ← eq_copies_of_length hfull]
    · have hhead : (runs.flatMap expand).head? ≠ some run.value := by
        rw [head?_flatMap_expand h.tail.writable]
        intro hsame
        obtain ⟨next, hnext, hvalue⟩ := Option.map_eq_some_iff.mp hsame
        exact hfull (h.full.rel_head? hnext hvalue.symm)
      have hpair : run ≠ copies 1 0 := fun heq => h.lone_zero (heq ▸ List.mem_cons_self)
      rw [ofBytes_replicate_append hhead, ih h.tail,
        ofStretch_length_value (h.writable run List.mem_cons_self) hpair, List.singleton_append]

/-! ## Encoding and decoding -/

theorem canonicalStream_encode (bytes : List UInt8) : CanonicalStream (encode bytes) :=
  ⟨ofBytes bytes, canonical_ofBytes bytes, rfl⟩

theorem encode_of_decode?_canonical {stream : List UInt8} (h : CanonicalStream stream) :
    ∃ bytes, decode? stream = some bytes ∧ encode bytes = stream := by
  obtain ⟨runs, hruns, rfl⟩ := h
  refine ⟨runs.flatMap expand, ?_, ?_⟩
  · rw [decode?, items?_flatMap_bytes hruns.writable, Option.map_some]
  · rw [encode, ofBytes_flatMap_expand hruns]

/-- Decoding undoes encoding on every byte string, the encoded streams are the canonical ones, and
on these encoding undoes decoding. -/
theorem encode_decode?_inverse :
    (∀ bytes, decode? (encode bytes) = some bytes) ∧
      (∀ stream, (∃ bytes, encode bytes = stream) ↔ CanonicalStream stream) ∧
      ∀ stream, CanonicalStream stream →
        ∃ bytes, decode? stream = some bytes ∧ encode bytes = stream := by
  refine ⟨decode?_encode, fun stream => ⟨?_, fun h => ?_⟩, fun _ h => encode_of_decode?_canonical h⟩
  · rintro ⟨bytes, rfl⟩
    exact canonicalStream_encode bytes
  · obtain ⟨bytes, -, hencode⟩ := encode_of_decode?_canonical h
    exact ⟨bytes, hencode⟩

/-- A full item of zeros in front of a lone zero, which a pair would be too long for. -/
theorem encode_decode?_inverse_split_zeros :
    CanonicalStream [255, 0, 0] ∧
      ∃ bytes, decode? [255, 0, 0] = some bytes ∧ encode bytes = [255, 0, 0] := by
  have h : CanonicalStream [255, 0, 0] := ⟨[copies maxCount 0, zero], by decide, rfl⟩
  exact ⟨h, encode_decode?_inverse.2.2 _ h⟩

end BitFont.Run
