import BitFont.Proofs.Text.Words
import BitFont.Text.Letter

/-!
# Letters and line feeds

Text without a line feed has none in capital or in small letters either: whatever the case tables
map, they map to letters and marks, all of which lie behind the control characters.
-/

namespace BitFont.Text

/-- A shift maps no letter below the image of its first one. -/
theorem Shift.lt_of_image? {shift : Shift} {n image bound : Nat} (h : shift.image? n = some image)
    (hbound : (bound : Int) < shift.first + shift.distance) : bound < image := by
  unfold image? at h
  split at h
  · rename_i hrange
    obtain rfl := Option.some.inj h
    omega
  · contradiction

theorem ofNat_ne_newline {n : Nat} (h : 10 < n) : Char.ofNat n ≠ '\n' := by
  by_cases hvalid : n.isValidChar
  · have hchar : Char.ofNat n = Char.ofNatAux n hvalid := dif_pos hvalid
    intro hsame
    have hcode : n = 10 := congrArg Char.toNat (hchar.symm.trans hsame)
    omega
  · have hchar : Char.ofNat n = '\x00' := dif_neg hvalid
    rw [hchar]
    decide

/-- A mapping by tables without line feeds. -/
theorem newline_not_mem_mapLetter {expansions : List (Char × List Char)} {shifts : List Shift}
    (hexpansions : ∀ entry ∈ expansions, '\n' ∉ entry.2)
    (hshifts : ∀ shift ∈ shifts, (10 : Int) < shift.first + shift.distance) {c : Char}
    (hc : c ≠ '\n') : '\n' ∉ mapLetter expansions shifts c := by
  unfold mapLetter
  split
  · rename_i entry hentry
    exact hexpansions entry (List.mem_of_find?_eq_some hentry)
  · split
    · rename_i n hn
      obtain ⟨shift, hshift, himage⟩ := List.exists_of_findSome?_eq_some hn
      have hlt : 10 < n := Shift.lt_of_image? himage (hshifts shift hshift)
      rw [List.mem_singleton]
      exact (ofNat_ne_newline hlt).symm
    · rw [List.mem_singleton]
      exact hc.symm

theorem newline_not_mem_capital {c : Char} (hc : c ≠ '\n') : '\n' ∉ capital c :=
  newline_not_mem_mapLetter (by decide +kernel) (by decide +kernel) hc

theorem newline_not_mem_small {c : Char} (hc : c ≠ '\n') : '\n' ∉ small c :=
  newline_not_mem_mapLetter (by decide +kernel) (by decide +kernel) hc

theorem toLower_ne_newline {c : Char} (hc : c ≠ '\n') : c.toLower ≠ '\n' := by
  change (if h : c.val ≥ 'A'.val ∧ c.val ≤ 'Z'.val then
    (⟨c.val + ('a'.val - 'A'.val), _⟩ : Char) else c) ≠ '\n'
  split
  · rename_i hrange
    intro hsame
    have hlow : 65 ≤ c.val.toNat := UInt32.le_iff_toNat_le.mp hrange.1
    have hhigh : c.val.toNat ≤ 90 := UInt32.le_iff_toNat_le.mp hrange.2
    have hcode : (c.val + ('a'.val - 'A'.val)).toNat = '\n'.val.toNat :=
      congrArg (·.val.toNat) hsame
    have hgap : ('a'.val - 'A'.val).toNat = 32 := by decide
    have hfeed : '\n'.val.toNat = 10 := by decide
    rw [UInt32.toNat_add, hgap, hfeed] at hcode
    omega
  · exact hc

namespace Only

variable {text : String}

theorem asciiSmall (h : Lacks '\n' text) : Lacks '\n' (asciiSmall text) := by
  intro c hc
  rw [Text.asciiSmall, String.toList_ofList, List.mem_map] at hc
  obtain ⟨d, hd, rfl⟩ := hc
  exact bne_iff_ne.mpr (toLower_ne_newline (bne_iff_ne.mp (h d hd)))

theorem capitalized (h : Lacks '\n' text) : Lacks '\n' (capitalized text) := by
  intro c hc
  rw [bne_iff_ne]
  rintro rfl
  unfold Text.capitalized at hc
  split at hc
  · simp at hc
  · rename_i first rest htext
    rw [String.toList_ofList, List.mem_append, List.mem_flatMap] at hc
    rcases hc with hc | ⟨d, hd, hc⟩
    · have hfirst : first ≠ '\n' := bne_iff_ne.mp (h first (by simp [htext]))
      exact newline_not_mem_capital hfirst hc
    · have hsmall : d ≠ '\n' := bne_iff_ne.mp (h d (by simp [htext, hd]))
      exact newline_not_mem_small hsmall hc

end Only

end BitFont.Text
