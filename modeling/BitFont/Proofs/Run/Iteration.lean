import BitFont.Proofs.Run.Canonical
import Mathlib.Algebra.GroupWithZero.Nat

/-!
# Items one after the other

The items of a byte string can be taken off its front one at a time: the equal bytes there, as many
as one count can say. Each item takes at least one byte away, so this comes to an end, and it gives
the items of the byte string (`yields_iff`). An item takes two bytes at most, so the encoded form is
at most twice as long as the byte string, and exactly so if every byte is an item of its own
(`items_account_for_bytes`).
-/

namespace BitFont.Run

/-! ## Items off the front -/

/-- Takes one item off the front. Its count is kept in a byte. -/
def front? : List UInt8 → Option (Run × List UInt8)
  | [] => none
  | byte :: rest =>
    let count := (((byte :: rest).take maxCount).takeWhile (· == byte)).length
    let run := if count = 1 ∧ byte = 0 then zero else copies (UInt8.ofNat count).toNat byte
    some (run, (byte :: rest).drop count)

/-- Taking items off the front of a byte string gives these and then comes to an end. -/
inductive Yields : List UInt8 → List Run → Prop
  | done {bytes : List UInt8} (h : front? bytes = none) : Yields bytes []
  | next {bytes rest : List UInt8} {run : Run} {runs : List Run}
      (h : front? bytes = some (run, rest)) (hrest : Yields rest runs) : Yields bytes (run :: runs)

theorem takeWhile_replicate_append {byte : UInt8} {rest : List UInt8}
    (h : rest.head? ≠ some byte) (n : Nat) :
    (List.replicate n byte ++ rest).takeWhile (· == byte) = List.replicate n byte := by
  have hall : ∀ other ∈ List.replicate n byte, (other == byte) = true := by
    intro other hother
    rw [List.eq_of_mem_replicate hother, beq_self_eq_true]
  have hrest : rest.takeWhile (· == byte) = [] := by
    cases rest with
    | nil => rfl
    | cons first others =>
      have hne : ¬ first = byte := fun hsame => h (congrArg some hsame)
      exact List.takeWhile_cons_of_neg (by simpa using hne)
  rw [List.takeWhile_append_of_pos hall, hrest, List.append_nil]

/-- The count stops at the end of the stretch, or at the largest count. -/
theorem length_takeWhile_take {byte : UInt8} {rest : List UInt8} (h : rest.head? ≠ some byte)
    (n : Nat) :
    (((List.replicate n byte ++ rest).take maxCount).takeWhile (· == byte)).length =
      min n maxCount := by
  by_cases hlt : n < maxCount
  · -- What is taken behind the stretch begins as the rest does, unless it is empty.
    obtain ⟨more, hmore⟩ : ∃ more, maxCount = n + (more + 1) := ⟨maxCount - n - 1, by omega⟩
    have hhead : (rest.take (more + 1)).head? ≠ some byte := by
      cases rest with
      | nil => simp
      | cons first others => simpa using h
    have htake : (List.replicate n byte ++ rest).take (n + (more + 1)) =
        List.replicate n byte ++ rest.take (more + 1) := by
      simp [List.take_append]
    rw [hmore, htake, takeWhile_replicate_append hhead, List.length_replicate]
    omega
  · obtain ⟨more, rfl⟩ := Nat.exists_eq_add_of_le (Nat.le_of_not_lt hlt)
    have htake : (List.replicate (maxCount + more) byte ++ rest).take maxCount =
        List.replicate maxCount byte ++ [] := by
      rw [List.append_nil, List.take_append_of_le_length (by simp), List.take_replicate]
      simp
    rw [htake, takeWhile_replicate_append (by simp), List.length_replicate]
    omega

/-- A stretch at the front gives up one item, and what the item leaves of it. -/
theorem front?_replicate_append {byte : UInt8} {rest : List UInt8} (h : rest.head? ≠ some byte)
    {n : Nat} (hpos : 0 < n) :
    front? (List.replicate n byte ++ rest) =
      some (if min n maxCount = 1 ∧ byte = 0 then zero else copies (min n maxCount) byte,
        List.replicate (n - min n maxCount) byte ++ rest) := by
  obtain ⟨m, rfl⟩ : ∃ m, n = m + 1 := ⟨n - 1, by omega⟩
  have hcount := length_takeWhile_take h (m + 1)
  have hdrop : (List.replicate (m + 1) byte ++ rest).drop (min (m + 1) maxCount) =
      List.replicate (m + 1 - min (m + 1) maxCount) byte ++ rest := by
    rw [List.drop_append_of_le_length (by rw [List.length_replicate]; exact Nat.min_le_left _ _),
      List.drop_replicate]
  rw [List.replicate_succ, List.cons_append] at hcount hdrop ⊢
  simp only [front?]
  rw [hcount, hdrop, toNat_ofNat_count (Nat.min_le_right _ _)]

theorem yields_replicate_append {byte : UInt8} {rest : List UInt8} {runs : List Run}
    (h : rest.head? ≠ some byte) (hrest : Yields rest runs) (n : Nat) :
    Yields (List.replicate n byte ++ rest) (ofStretch n byte ++ runs) := by
  induction n using Nat.strongRecOn with
  | ind n ih =>
    rcases Nat.eq_zero_or_pos n with rfl | hpos
    · exact hrest
    · have hfront := front?_replicate_append h hpos
      by_cases hlt : n < maxCount
      · -- The last item of the stretch is the remainder.
        have hne : n ≠ 0 := by omega
        rw [Nat.min_eq_left (Nat.le_of_lt hlt), Nat.sub_self] at hfront
        rw [ofStretch_of_lt hlt, remainder, if_neg hne]
        split
        · rename_i hlone
          rw [if_pos hlone] at hfront
          exact .next hfront hrest
        · rename_i hpair
          rw [if_neg hpair] at hfront
          exact .next hfront hrest
      · obtain ⟨more, rfl⟩ := Nat.exists_eq_add_of_le (Nat.le_of_not_lt hlt)
        have hpair : ¬ (maxCount = 1 ∧ byte = 0) := fun hboth => absurd hboth.1 (by decide)
        rw [Nat.min_eq_right (Nat.le_add_right _ _), if_neg hpair, Nat.add_sub_cancel_left]
          at hfront
        rw [ofStretch_add_maxCount]
        exact .next hfront (ih more (Nat.lt_add_of_pos_left (by decide)))

theorem yields_ofBytes (bytes : List UInt8) : Yields bytes (ofBytes bytes) := by
  induction bytes using stretch_induction with
  | nil => exact .done rfl
  | append n byte rest hrest ih =>
    rw [ofBytes_replicate_append hrest]
    exact yields_replicate_append hrest ih (n + 1)

theorem Yields.eq {bytes : List UInt8} {runs others : List Run} (h : Yields bytes runs)
    (hothers : Yields bytes others) : runs = others := by
  induction h generalizing others with
  | done hnone =>
    cases hothers with
    | done _ => rfl
    | next hsome _ => simp [hnone] at hsome
  | next hsome _ ih =>
    cases hothers with
    | done hnone => simp [hnone] at hsome
    | next hsome' hrest =>
      obtain ⟨rfl, rfl⟩ := Prod.mk.inj (Option.some.inj (hsome.symm.trans hsome'))
      rw [ih hrest]

/-- Taking items off the front always comes to an end, and gives the items of the byte string. -/
theorem yields_iff {bytes : List UInt8} {runs : List Run} :
    Yields bytes runs ↔ runs = ofBytes bytes := by
  constructor
  · intro h
    exact h.eq (yields_ofBytes bytes)
  · rintro rfl
    exact yields_ofBytes bytes

/-- An item takes away the bytes that it stands for. -/
theorem expand_append_of_front? {bytes rest : List UInt8} {run : Run}
    (h : front? bytes = some (run, rest)) : run.expand ++ rest = bytes := by
  have hruns : run :: ofBytes rest = ofBytes bytes :=
    yields_iff.mp (.next h (yields_ofBytes rest))
  calc run.expand ++ rest
      = (run :: ofBytes rest).flatMap expand := by
        rw [List.flatMap_cons, flatMap_expand_ofBytes]
    _ = bytes := by rw [hruns, flatMap_expand_ofBytes]

/-! ## Sizes -/

theorem encodedLength_eq_sum (bytes : List UInt8) :
    encodedLength bytes = ((ofBytes bytes).map size).sum := by
  rw [encodedLength]
  induction ofBytes bytes with
  | nil => rfl
  | cons run rest ih => rw [List.foldr_cons, ih, List.map_cons, List.sum_cons]

theorem sum_length_ofBytes (bytes : List UInt8) :
    ((ofBytes bytes).map length).sum = bytes.length := by
  conv => rhs; rw [← flatMap_expand_ofBytes bytes]
  simp only [List.length_flatMap, length_expand]

theorem Writable.size_le {run : Run} (h : run.Writable) : run.size ≤ 2 * run.length := by
  have hpos := h.length_pos
  cases run with
  | zero => decide
  | copies count byte =>
    rw [length] at hpos ⊢
    rw [size]
    omega

/-- Only single bytes that are written as pairs take twice their length. -/
theorem size_eq_two_mul_iff (run : Run) : run.size = 2 * run.length ↔ run = copies 1 run.value := by
  cases run with
  | zero => simp [size, length]
  | copies count byte =>
    simp only [size, length, value, copies.injEq, and_true]
    omega

theorem sum_size_le {runs : List Run} (h : ∀ run ∈ runs, run.Writable) :
    (runs.map size).sum ≤ 2 * (runs.map length).sum := by
  induction runs with
  | nil => exact Nat.le_refl _
  | cons run rest ih =>
    obtain ⟨hrun, hrest⟩ := List.forall_mem_cons.mp h
    have hsize := hrun.size_le
    have hsizes := ih hrest
    simp only [List.map_cons, List.sum_cons]
    omega

theorem sum_size_eq_iff {runs : List Run} (h : ∀ run ∈ runs, run.Writable) :
    (runs.map size).sum = 2 * (runs.map length).sum ↔ ∀ run ∈ runs, run = copies 1 run.value := by
  induction runs with
  | nil => simp
  | cons run rest ih =>
    obtain ⟨hrun, hrest⟩ := List.forall_mem_cons.mp h
    have hsize := hrun.size_le
    have hsizes := sum_size_le hrest
    rw [List.forall_mem_cons, ← ih hrest, ← size_eq_two_mul_iff]
    simp only [List.map_cons, List.sum_cons]
    omega

/-! ## Bytes that are items of their own -/

theorem flatMap_expand_singles (bytes : List UInt8) :
    (bytes.map (copies 1)).flatMap expand = bytes := by
  rw [List.flatMap_map]
  exact List.flatMap_singleton' bytes

theorem ofBytes_eq_singles_iff (bytes : List UInt8) :
    ofBytes bytes = bytes.map (copies 1) ↔
      ∀ run ∈ ofBytes bytes, run = copies 1 run.value := by
  constructor
  · intro h run hrun
    rw [h] at hrun
    obtain ⟨byte, -, rfl⟩ := List.mem_map.mp hrun
    rfl
  · intro h
    have hruns : ofBytes bytes = ((ofBytes bytes).map value).map (copies 1) := by
      rw [List.map_map]
      conv => lhs; rw [← List.map_id (ofBytes bytes)]
      exact List.map_congr_left h
    have hbytes : (ofBytes bytes).map value = bytes := by
      conv => rhs; rw [← flatMap_expand_ofBytes bytes, hruns, flatMap_expand_singles]
    rw [hbytes] at hruns
    exact hruns

/-- Single bytes are canonical items if none of them is zero and none is the one before it. -/
theorem canonical_singles_iff (bytes : List UInt8) :
    Canonical (bytes.map (copies 1)) ↔ 0 ∉ bytes ∧ bytes.IsChain (· ≠ ·) := by
  have hlone : copies 1 0 ∈ bytes.map (copies 1) ↔ 0 ∈ bytes := by
    simp
  have hfull : (bytes.map (copies 1)).IsChain
      (fun run next => run.value = next.value → run.length = maxCount) ↔
        bytes.IsChain (· ≠ ·) := by
    rw [List.isChain_map]
    simp [value, length, maxCount]
  constructor
  · intro h
    exact ⟨fun hzero => h.lone_zero (hlone.mpr hzero), hfull.mp h.full⟩
  · rintro ⟨hzero, hchain⟩
    refine ⟨?_, fun hmem => hzero (hlone.mp hmem), hfull.mpr hchain⟩
    intro run hrun
    obtain ⟨byte, -, rfl⟩ := List.mem_map.mp hrun
    exact ⟨Nat.one_pos, by decide⟩

theorem ofBytes_eq_singles_iff_canonical (bytes : List UInt8) :
    ofBytes bytes = bytes.map (copies 1) ↔ Canonical (bytes.map (copies 1)) := by
  constructor
  · intro h
    rw [← h]
    exact canonical_ofBytes bytes
  · intro h
    have hruns := ofBytes_flatMap_expand h
    rwa [flatMap_expand_singles] at hruns

/-- Items are taken off a byte string until nothing is left. Each takes between 1 and 255 bytes away,
a number that a byte holds, and stands for these bytes. The sizes of the items say how long the
encoded form is: at most twice as long as the byte string, and this if no byte is zero and none is
the one before it. -/
theorem items_account_for_bytes (bytes : List UInt8) :
    (∀ runs, Yields bytes runs ↔ runs = ofBytes bytes) ∧
      (∀ run rest, front? bytes = some (run, rest) → run.expand ++ rest = bytes) ∧
      (∀ run ∈ ofBytes bytes, 1 ≤ run.length ∧ run.length ≤ 255 ∧
        (UInt8.ofNat run.length).toNat = run.length) ∧
      (ofBytes bytes).flatMap expand = bytes ∧
      ((ofBytes bytes).map length).sum = bytes.length ∧
      encodedLength bytes = ((ofBytes bytes).map size).sum ∧
      encodedLength bytes = (encode bytes).length ∧
      encodedLength bytes ≤ 2 * bytes.length ∧
      (encodedLength bytes = 2 * bytes.length ↔ 0 ∉ bytes ∧ bytes.IsChain (· ≠ ·)) := by
  have hwritable : ∀ run ∈ ofBytes bytes, run.Writable := fun _ hrun => writable_of_mem_ofBytes hrun
  have hsum := encodedLength_eq_sum bytes
  have hlength := sum_length_ofBytes bytes
  refine ⟨fun _ => yields_iff, fun _ _ => expand_append_of_front?, ?_,
    flatMap_expand_ofBytes bytes, hlength, hsum, (length_encode bytes).symm, ?_, ?_⟩
  · intro run hrun
    have hle : run.length ≤ maxCount := (hwritable run hrun).length_le
    exact ⟨(hwritable run hrun).length_pos, hle, toNat_ofNat_count hle⟩
  · rw [hsum, ← hlength]
    exact sum_size_le hwritable
  · rw [← canonical_singles_iff, ← ofBytes_eq_singles_iff_canonical, ofBytes_eq_singles_iff,
      ← sum_size_eq_iff hwritable, hsum, hlength]

/-- A stretch of zeros that is split, so that a lone one is left, and a byte string without
stretches. -/
theorem items_account_for_bytes_split_zeros :
    let bytes := List.replicate 256 0 ++ [7]
    front? bytes = some (copies 255 0, [0, 7]) ∧ (copies 255 0).expand ++ [0, 7] = bytes ∧
      zero ∈ ofBytes bytes ∧ 1 ≤ zero.length ∧ zero.length ≤ 255 ∧
      encodedLength [1, 2, 1] = 2 * [1, 2, 1].length := by
  intro bytes
  have hfront : front? bytes = some (copies 255 0, [0, 7]) := by decide +kernel
  have hzero : zero ∈ ofBytes bytes := by decide +kernel
  obtain ⟨-, hexpand, hbounds, -⟩ := items_account_for_bytes bytes
  obtain ⟨-, -, -, -, -, -, -, -, htwice⟩ := items_account_for_bytes [1, 2, 1]
  obtain ⟨hpos, hle, -⟩ := hbounds zero hzero
  exact ⟨hfront, hexpand _ _ hfront, hzero, hpos, hle, htwice.mpr (by decide)⟩

end BitFont.Run
