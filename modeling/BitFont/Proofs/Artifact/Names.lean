import BitFont.Artifact.Limits
import BitFont.Proofs.Text.Words

/-!
# Generated names

A stem of letters, digits and underscores gives names of such characters only, in whatever case they
are written. Behind such a stem, every word makes one word.
-/

namespace BitFont

open Text

/-! ## Characters -/

theorem toNat_lt_of_isIdentifierChar {c : Char} (h : isIdentifierChar c = true) :
    c.toNat < 128 := by
  have hmax (last : Char) (hlast : last.toNat < 128) (hle : c.val ≤ last.val) : c.toNat < 128 :=
    Nat.lt_of_le_of_lt (UInt32.le_iff_toNat_le.mp hle) hlast
  have hkind : (((c.isUpper || c.isLower) || c.isDigit) || c == '_') = true := h
  simp only [Bool.or_eq_true, beq_iff_eq] at hkind
  rcases hkind with ((hupper | hlower) | hdigit) | rfl
  · have hrange : c.val ≥ 'A'.val ∧ c.val ≤ 'Z'.val := of_decide_eq_true hupper
    exact hmax 'Z' (by decide) hrange.2
  · have hrange : (decide (c.val ≥ 'a'.val) && decide (c.val ≤ 'z'.val)) = true := hlower
    rw [Bool.and_eq_true, decide_eq_true_eq, decide_eq_true_eq] at hrange
    exact hmax 'z' (by decide) hrange.2
  · exact hmax '9' (by decide) (UInt32.le_iff_toNat_le.mpr (Char.isDigit_iff_toNat.mp hdigit).2)
  · decide

/-- No mapping between capital and small letters leads out of the identifier characters. -/
theorem isIdentifierChar_mappings {c : Char} (h : isIdentifierChar c = true) :
    isBlank c = false ∧ isIdentifierChar c.toUpper = true ∧ isIdentifierChar c.toLower = true ∧
      (capital c).all isIdentifierChar = true ∧ (small c).all isIdentifierChar = true := by
  have hall : ∀ n < 128, isIdentifierChar (Char.ofNat n) = true →
      isBlank (Char.ofNat n) = false ∧ isIdentifierChar (Char.ofNat n).toUpper = true ∧
        isIdentifierChar (Char.ofNat n).toLower = true ∧
        (capital (Char.ofNat n)).all isIdentifierChar = true ∧
        (small (Char.ofNat n)).all isIdentifierChar = true := by
    decide +kernel
  have hc := hall c.toNat (toNat_lt_of_isIdentifierChar h)
  rw [Char.ofNat_toNat] at hc
  exact hc h

/-! ## Names -/

/-- Text of identifier characters. -/
abbrev IsIdentifier (name : String) : Prop := Only isIdentifierChar name

theorem isIdentifier_toString (n : Nat) : IsIdentifier (toString n) := by
  intro c hc
  rw [Nat.toString_eq_repr, Nat.repr_eq_ofList_toDigits, String.toList_ofList] at hc
  have hdigit : c.isDigit = true := Nat.isDigit_of_mem_toDigits (by decide) (by decide) hc
  rw [isIdentifierChar, Char.isAlphanum, hdigit, Bool.or_true, Bool.true_or]

namespace IsIdentifier

variable {name : String}

theorem noBlanks (h : IsIdentifier name) : Only (fun c => !isBlank c) name := by
  intro c hc
  have hblank := (isIdentifierChar_mappings (h c hc)).1
  simpa using hblank

theorem isWord (h : IsIdentifier name) (hne : name ≠ "") : IsWord name := ⟨hne, h.noBlanks⟩

theorem asciiCapital (h : IsIdentifier name) : IsIdentifier (asciiCapital name) := by
  intro c hc
  rw [Text.asciiCapital, String.toList_ofList, List.mem_map] at hc
  obtain ⟨d, hd, rfl⟩ := hc
  exact (isIdentifierChar_mappings (h d hd)).2.1

theorem asciiSmall (h : IsIdentifier name) : IsIdentifier (asciiSmall name) := by
  intro c hc
  rw [Text.asciiSmall, String.toList_ofList, List.mem_map] at hc
  obtain ⟨d, hd, rfl⟩ := hc
  exact (isIdentifierChar_mappings (h d hd)).2.2.1

theorem capitalized (h : IsIdentifier name) : IsIdentifier (capitalized name) := by
  intro c hc
  unfold Text.capitalized at hc
  split at hc
  · simp at hc
  · rename_i first rest hname
    have hfirst : isIdentifierChar first = true := h first (by simp [hname])
    obtain ⟨-, -, -, hcapital, -⟩ := isIdentifierChar_mappings hfirst
    rw [String.toList_ofList, List.mem_append, List.mem_flatMap] at hc
    rcases hc with hc | ⟨d, hd, hc⟩
    · exact List.all_eq_true.mp hcapital c hc
    · have hsmall : isIdentifierChar d = true := h d (by simp [hname, hd])
      obtain ⟨-, -, -, -, hmapped⟩ := isIdentifierChar_mappings hsmall
      exact List.all_eq_true.mp hmapped c hc

end IsIdentifier

theorem isWord_toString (n : Nat) : IsWord (toString n) := by
  apply (isIdentifier_toString n).isWord
  rw [Nat.toString_eq_repr, Nat.repr_eq_ofList_toDigits]
  intro hempty
  exact Nat.toDigits_ne_nil (String.ofList_eq_empty_iff.mp hempty)

namespace Naming

variable {naming : Naming}

theorem isIdentifier_typeName (h : IsIdentifier naming.stem) : IsIdentifier naming.typeName :=
  h.capitalized

theorem isIdentifier_guardName (h : IsIdentifier naming.stem) : IsIdentifier naming.guardName := by
  have hopen : IsIdentifier "__" := by decide
  have hclose : IsIdentifier "S__" := by decide
  exact (hopen.append h.asciiCapital).append hclose

theorem isIdentifier_count (h : IsIdentifier naming.stem) : IsIdentifier naming.count := by
  have hending : IsIdentifier "_NUM" := by decide
  exact h.append hending

theorem isWord_count (h : IsIdentifier naming.stem) : IsWord naming.count := by
  apply (isIdentifier_count h).isWord
  intro hempty
  have hending := (String.append_eq_empty_iff.mp hempty).2
  contradiction

theorem isIdentifier_table (h : IsIdentifier naming.stem) {kind : String}
    (hkind : IsIdentifier kind) : IsIdentifier (naming.table kind) := by
  have hjoint : IsIdentifier "_" := by decide
  exact (h.asciiSmall.append hjoint).append hkind

theorem aspect_eq (naming : Naming) (id : String) (aspect : Aspect) :
    naming.aspect id aspect = naming.stem ++ "_" ++ id ++ ("_" ++ aspect.ending) := by
  rw [← String.append_assoc]
  rfl

theorem isWord_index (h : IsIdentifier naming.stem) {id : String} (hid : IsWord id) :
    IsWord (naming.index id) := by
  have hjoint : IsIdentifier "_" := by decide
  have hstem : IsWord (naming.stem ++ "_") := by
    apply IsIdentifier.isWord (h.append hjoint)
    intro hempty
    have hjoint := (String.append_eq_empty_iff.mp hempty).2
    contradiction
  exact hstem.append hid.noBlanks

theorem isWord_aspect (h : IsIdentifier naming.stem) {id : String} (hid : IsWord id)
    (aspect : Aspect) : IsWord (naming.aspect id aspect) := by
  have hjoint : IsIdentifier "_" := by decide
  have hending : IsIdentifier aspect.ending := by
    cases aspect <;> decide
  exact ((isWord_index h hid).append hjoint.noBlanks).append hending.noBlanks

end Naming

end BitFont
