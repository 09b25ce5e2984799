import BitFont.Proofs.Run.Stretches
import Mathlib.Order.Bounds.Defs
import Mathlib.Tactic.SplitIfs

/-!
# Shortest streams

A byte string can be cut into items in many ways, and a stretch of zeros even into items of two
kinds. The encoder's way takes the fewest bytes of all (`isLeast_length_encode`). It fills one item
after the other, so an item that is put in front of a byte string makes the encoded form longer by
the size of that item at most (`length_encode_expand_append_le`), whatever its count and value. Any
other choice of items is put in front item by item.
-/

namespace BitFont.Run

/-- The number of bytes that a stretch is written in: two for every full item, and for what is left
over two again, or one if that is a lone zero. -/
def stretchSize (count : Nat) (byte : UInt8) : Nat :=
  2 * (count / maxCount) +
    if count % maxCount = 0 then 0
    else if count % maxCount = 1 ∧ byte = 0 then 1
    else 2

theorem length_flatMap_bytes_ofStretch (count : Nat) (byte : UInt8) :
    ((ofStretch count byte).flatMap bytes).length = stretchSize count byte := by
  have hfull (n : Nat) :
      ((List.replicate n (copies maxCount byte)).flatMap bytes).length = 2 * n := by
    induction n with
    | zero => rfl
    | succ n ih =>
      rw [List.replicate_succ, List.flatMap_cons, List.length_append, ih, length_bytes, size,
        Nat.mul_succ, Nat.add_comm]
  have hlast (n : Nat) : ((remainder n byte).flatMap bytes).length =
      if n = 0 then 0 else if n = 1 ∧ byte = 0 then 1 else 2 := by
    unfold remainder
    split
    · rfl
    · split <;> rfl
  rw [ofStretch, List.flatMap_append, List.length_append, hfull, hlast, stretchSize]

theorem encode_replicate_append {byte : UInt8} {rest : List UInt8} (h : rest.head? ≠ some byte)
    (n : Nat) :
    (encode (List.replicate n byte ++ rest)).length =
      stretchSize n byte + (encode rest).length := by
  rw [encode, ofBytes_replicate_append h, List.flatMap_append, List.length_append,
    length_flatMap_bytes_ofStretch, encode]

/-! ## One item more -/

/-- A lone zero in front of zeros costs a byte at most. It becomes the lone zero behind full items,
it turns a lone zero into a pair, or a pair takes it in. -/
theorem stretchSize_succ_zero_le (n : Nat) : stretchSize (n + 1) 0 ≤ stretchSize n 0 + 1 := by
  unfold stretchSize maxCount
  simp only [and_true]
  split_ifs <;> omega

/-- A pair in front of its own value costs two bytes at most. Where the stretch ends in a lone zero,
the pair fills up that item or leaves a lone zero again. -/
theorem stretchSize_add_le {count : Nat} (h : count ≤ maxCount) (n : Nat) (byte : UInt8) :
    stretchSize (count + n) byte ≤ stretchSize n byte + 2 := by
  unfold stretchSize
  unfold maxCount at *
  by_cases hbyte : byte = 0
  · simp only [hbyte, and_true]
    split_ifs <;> omega
  · simp only [hbyte, and_false, if_false]
    split_ifs <;> omega

theorem Writable.stretchSize_add_le {run : Run} (h : run.Writable) (n : Nat) :
    stretchSize (run.length + n) run.value ≤ stretchSize n run.value + run.size := by
  cases run with
  | zero =>
    rw [length, Nat.add_comm]
    exact stretchSize_succ_zero_le n
  | copies count byte => exact Run.stretchSize_add_le h.2 n byte

/-- An item in front of a byte string makes the encoded form longer by its own size at most. -/
theorem length_encode_expand_append_le {run : Run} (h : run.Writable) (bytes : List UInt8) :
    (encode (run.expand ++ bytes)).length ≤ run.size + (encode bytes).length := by
  -- The bytes may go on with the value of the item, so both sides are cut where that stretch ends.
  obtain ⟨n, rest, rfl, hrest⟩ := exists_replicate_append run.value bytes
  have hsize := h.stretchSize_add_le n
  rw [expand_eq_replicate, ← List.append_assoc, List.replicate_append_replicate,
    encode_replicate_append hrest, encode_replicate_append hrest]
  omega

/-! ## Any choice of items -/

theorem length_encode_flatMap_expand_le {runs : List Run} (h : ∀ run ∈ runs, run.Writable) :
    (encode (runs.flatMap expand)).length ≤ (runs.flatMap bytes).length := by
  induction runs with
  | nil => exact Nat.le_refl _
  | cons run rest ih =>
    obtain ⟨hrun, hrest⟩ := List.forall_mem_cons.mp h
    calc (encode ((run :: rest).flatMap expand)).length
        ≤ run.size + (encode (rest.flatMap expand)).length :=
          length_encode_expand_append_le hrun _
      _ ≤ run.size + (rest.flatMap bytes).length := Nat.add_le_add_left (ih hrest) _
      _ = ((run :: rest).flatMap bytes).length := by
          rw [List.flatMap_cons, List.length_append, length_bytes]

/-- Of all streams that are read as a byte string, and of all choices of items for it, none takes
fewer bytes than the encoder's. -/
theorem isLeast_length_encode (bytes : List UInt8) :
    IsLeast {length | ∃ stream, decode? stream = some bytes ∧ stream.length = length}
        (encode bytes).length ∧
      IsLeast {length | ∃ runs : List Run, (∀ run ∈ runs, run.Writable) ∧
          runs.flatMap expand = bytes ∧ (runs.flatMap Run.bytes).length = length}
        (encodedLength bytes) := by
  refine ⟨⟨⟨encode bytes, decode?_encode bytes, rfl⟩, ?_⟩, ⟨ofBytes bytes, ?_, ?_, ?_⟩, ?_⟩
  · rintro _ ⟨stream, hdecode, rfl⟩
    obtain ⟨runs, hruns, rfl⟩ := Option.map_eq_some_iff.mp hdecode
    obtain ⟨hwritable, rfl⟩ := items?_eq_some_iff.mp hruns
    exact length_encode_flatMap_expand_le hwritable
  · intro run hrun
    exact writable_of_mem_ofBytes hrun
  · exact flatMap_expand_ofBytes bytes
  · exact length_encode bytes
  · rintro _ ⟨runs, hwritable, rfl, rfl⟩
    rw [← length_encode]
    exact length_encode_flatMap_expand_le hwritable

/-- Neither a lone zero in front of a full item nor an even split of a long stretch is shorter. -/
example : decode? [0, 255, 0, 3, 7] = decode? [128, 0, 128, 0, 1, 7, 2, 7] ∧
    encode (List.replicate 256 0 ++ [7, 7, 7]) = [255, 0, 0, 3, 7] := by
  decide +kernel

end BitFont.Run
