import BitFont.Text.Numeral
import Mathlib.Data.List.TakeWhile

/-!
# Reading numerals

Digits are read onto the value in front of them, and the value only grows, so a value that has passed
the limit stays beyond it whatever follows. Hence a word is read as if numbers had no bound
(`read_eq`): the digits in front of the first other character decide whether the number is too large,
and otherwise every character has to be a digit.
-/

namespace BitFont.Numeral

theorem digit?_eq_some {c : Char} (h : c.isDigit = true) :
    digit? c = some (c.toNat - '0'.toNat) := by
  have hrange := Char.isDigit_iff_toNat.mp h
  rw [digit?, if_pos ⟨UInt32.le_iff_toNat_le.mpr hrange.1, UInt32.le_iff_toNat_le.mpr hrange.2⟩]

theorem digit?_eq_none {c : Char} (h : c.isDigit = false) : digit? c = none := by
  rw [digit?, if_neg]
  rintro ⟨hzero, hnine⟩
  have hdigit : c.isDigit = true :=
    Char.isDigit_iff_toNat.mpr ⟨UInt32.le_iff_toNat_le.mp hzero, UInt32.le_iff_toNat_le.mp hnine⟩
  rw [h] at hdigit
  contradiction

theorem le_ofDigitChars (digits : List Char) (value : Nat) :
    value ≤ Nat.ofDigitChars 10 digits value := by
  induction digits generalizing value with
  | nil => exact Nat.le_refl _
  | cons c rest ih =>
    rw [Nat.ofDigitChars_cons]
    have hrest := ih (10 * value + (c.toNat - '0'.toNat))
    omega

/-- A digit that passes the limit is found at once, since no later digit leads back below it. -/
theorem readDigits_append {digits : List Char} (h : ∀ c ∈ digits, c.isDigit = true)
    {value : Nat} (hvalue : value ≤ limit) (rest : List Char) :
    readDigits value (digits ++ rest) =
      if limit < Nat.ofDigitChars 10 digits value then .error .tooLarge
      else readDigits (Nat.ofDigitChars 10 digits value) rest := by
  induction digits generalizing value with
  | nil => rw [Nat.ofDigitChars_nil, if_neg (Nat.not_lt.mpr hvalue), List.nil_append]
  | cons c digits ih =>
    obtain ⟨hc, hdigits⟩ := List.forall_mem_cons.mp h
    rw [List.cons_append, readDigits, digit?_eq_some hc, Nat.ofDigitChars_cons]
    dsimp only
    by_cases hlarge : limit < 10 * value + (c.toNat - '0'.toNat)
    · have hgrows := le_ofDigitChars digits (10 * value + (c.toNat - '0'.toNat))
      rw [if_pos hlarge, if_pos (Nat.lt_of_lt_of_le hlarge hgrows)]
    · rw [if_neg hlarge, ih hdigits (Nat.le_of_not_lt hlarge)]

/-- The digits in front of the first other character decide whether the number is too large. -/
theorem readDigits_zero (chars : List Char) :
    readDigits 0 chars =
      if limit < Nat.ofDigitChars 10 (chars.takeWhile Char.isDigit) 0 then .error .tooLarge
      else if chars.all Char.isDigit then .ok (Nat.ofDigitChars 10 chars 0)
      else .error .invalidDigit := by
  have hread := readDigits_append (List.all_eq_true.mp (List.all_takeWhile (l := chars)))
    (Nat.zero_le limit) (chars.dropWhile Char.isDigit)
  rw [List.takeWhile_append_dropWhile] at hread
  rw [hread]
  congr 1
  cases hrest : chars.dropWhile Char.isDigit with
  | nil =>
    have hdigits := List.dropWhile_eq_nil_iff.mp hrest
    rw [if_pos (List.all_eq_true.mpr hdigits), List.takeWhile_eq_self_iff.mpr hdigits]
    rfl
  | cons c rest =>
    have hother := List.head?_dropWhile_not Char.isDigit chars
    rw [hrest] at hother
    have hnot : ¬ chars.all Char.isDigit = true := by
      intro hdigits
      rw [List.dropWhile_eq_nil_iff.mpr (List.all_eq_true.mp hdigits)] at hrest
      contradiction
    rw [if_neg hnot, readDigits, digit?_eq_none hother]

/-! ## Words -/

/-- What stands behind a plus sign, if there is one. -/
def unsigned (word : String) : List Char :=
  match word.toList with
  | '+' :: digits => digits
  | digits => digits

/-- The word is one or more digits of this value, however large, perhaps with a plus sign in
front. -/
structure Denotes (word : String) (value : Nat) : Prop where
  ne_nil : unsigned word ≠ []
  isDigit : (unsigned word).all Char.isDigit = true
  value_eq : Nat.ofDigitChars 10 (unsigned word) 0 = value

instance (word : String) (value : Nat) : Decidable (Denotes word value) :=
  decidable_of_iff (unsigned word ≠ [] ∧ (unsigned word).all Char.isDigit = true ∧
      Nat.ofDigitChars 10 (unsigned word) 0 = value)
    ⟨fun ⟨hne, hdigit, hvalue⟩ => ⟨hne, hdigit, hvalue⟩,
      fun ⟨hne, hdigit, hvalue⟩ => ⟨hne, hdigit, hvalue⟩⟩

/-- The value of the digits in front of the first other character. -/
def leadingValue (word : String) : Nat :=
  Nat.ofDigitChars 10 ((unsigned word).takeWhile Char.isDigit) 0

theorem Denotes.leadingValue_eq {word : String} {value : Nat} (h : Denotes word value) :
    leadingValue word = value := by
  rw [leadingValue, List.takeWhile_eq_self_iff.mpr (List.all_eq_true.mp h.isDigit), h.value_eq]

theorem denotes_leadingValue_iff {word : String} :
    Denotes word (leadingValue word) ↔
      unsigned word ≠ [] ∧ (unsigned word).all Char.isDigit = true := by
  constructor
  · intro h
    exact ⟨h.ne_nil, h.isDigit⟩
  · rintro ⟨hne, hdigit⟩
    refine ⟨hne, hdigit, ?_⟩
    rw [leadingValue, List.takeWhile_eq_self_iff.mpr (List.all_eq_true.mp hdigit)]

theorem read_eq_readDigits (word : String) :
    read word = if unsigned word = [] then .error .invalidDigit else readDigits 0 (unsigned word) := by
  unfold read unsigned
  cases word.toList with
  | nil => rfl
  | cons first rest =>
    by_cases hplus : first = '+'
    · subst hplus
      cases rest with
      | nil => rfl
      | cons c digits => simp
    · simp [hplus]

/-- A word is read as if there were no limit to the values on the way. -/
theorem read_eq (word : String) :
    read word =
      if limit < leadingValue word then .error .tooLarge
      else if Denotes word (leadingValue word) then .ok (leadingValue word)
      else .error .invalidDigit := by
  rw [read_eq_readDigits]
  by_cases hempty : unsigned word = []
  · have hzero : leadingValue word = 0 := by
      rw [leadingValue, hempty]
      rfl
    rw [if_pos hempty, hzero, if_neg (by decide), if_neg fun h => h.ne_nil hempty]
  · rw [if_neg hempty, readDigits_zero, ← leadingValue]
    by_cases hdigit : (unsigned word).all Char.isDigit = true
    · have hdenotes := denotes_leadingValue_iff.mpr ⟨hempty, hdigit⟩
      rw [if_pos hdigit, if_pos hdenotes, hdenotes.value_eq]
    · have hnot : ¬ Denotes word (leadingValue word) := fun h => hdigit h.isDigit
      rw [if_neg hdigit, if_neg hnot]

theorem read_eq_ok_iff {word : String} {value : Nat} :
    read word = .ok value ↔ Denotes word value ∧ value ≤ limit := by
  rw [read_eq]
  constructor
  · intro h
    split at h
    · contradiction
    · rename_i hsmall
      split at h
      · rename_i hdenotes
        obtain rfl : leadingValue word = value := Except.ok.inj h
        exact ⟨hdenotes, Nat.le_of_not_lt hsmall⟩
      · contradiction
  · rintro ⟨hdenotes, hle⟩
    rw [hdenotes.leadingValue_eq, if_neg (Nat.not_lt.mpr hle), if_pos hdenotes]

theorem eq_of_read_eq_error {word : String} {fault : Fault} (h : read word = .error fault) :
    fault = if limit < leadingValue word then .tooLarge else .invalidDigit := by
  rw [read_eq] at h
  split at h
  · rename_i hlarge
    rw [if_pos hlarge, ← Except.error.inj h]
  · rename_i hsmall
    split at h
    · contradiction
    · rw [if_neg hsmall, ← Except.error.inj h]

theorem read_toString {n : Nat} (h : n ≤ limit) : read (toString n) = .ok n := by
  have hdigits : (toString n).toList = Nat.toDigits 10 n := by
    rw [Nat.toString_eq_repr, Nat.repr_eq_ofList_toDigits, String.toList_ofList]
  have hall : ∀ c ∈ Nat.toDigits 10 n, c.isDigit = true :=
    fun c hc => Nat.isDigit_of_mem_toDigits (by decide) (by decide) hc
  have hunsigned : unsigned (toString n) = Nat.toDigits 10 n := by
    unfold unsigned
    rw [hdigits]
    split
    · rename_i hsign
      have hplus := hall '+' (hsign ▸ List.mem_cons_self)
      contradiction
    · rfl
  have hdenotes : Denotes (toString n) n := by
    refine ⟨?_, ?_, ?_⟩
    · rw [hunsigned]
      exact Nat.toDigits_ne_nil
    · rw [hunsigned]
      exact List.all_eq_true.mpr hall
    · rw [hunsigned]
      exact Nat.ofDigitChars_ten_toDigits
  exact read_eq_ok_iff.mpr ⟨hdenotes, h⟩

end BitFont.Numeral
