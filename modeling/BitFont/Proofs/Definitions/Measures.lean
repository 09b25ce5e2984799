import BitFont.Proofs.Definitions.Significance
import BitFont.Proofs.Text.Numerals

/-!
# Reading `DIM` lines

A `DIM` line gives a size exactly if a width and a height stand behind `DIM`: numerals, perhaps with
a plus sign and leading zeros, whose values lie between 1 and 65535. Otherwise the line is malformed,
and the reason speaks of the first of the two that cannot be read (`ofText_dim`).
-/

namespace BitFont

/-- The word is a numeral for a positive number of sixteen bits. -/
def IsMeasure (word : String) (value : Nat) : Prop :=
  Numeral.Denotes word value ∧ 1 ≤ value ∧ value ≤ 65535

instance (word : String) (value : Nat) : Decidable (IsMeasure word value) :=
  inferInstanceAs (Decidable (_ ∧ _))

/-- What is said of a word that is no numeral of sixteen bits. -/
def Numeral.complaint (word : String) : String :=
  if 65535 < leadingValue word then "number too large to fit in target type"
  else "invalid digit found in string"

/-- Why a word, or the lack of one, is no measure. -/
def Measure.reason (measure : Measure) : Option String → String
  | none => s!"missing {measure.name}"
  | some word =>
    if Numeral.Denotes word 0 then s!"{measure.name} must be positive"
    else s!"invalid {measure.name} '{word}': {Numeral.complaint word}"

/-- The first measure that the words behind `DIM` do not give, and the word in its place, if there
is one. -/
inductive FirstFailing (words : List String) : Measure → Option String → Prop
  | width (h : ∀ word ∈ words[0]?, ∀ value, ¬ IsMeasure word value) :
      FirstFailing words .width words[0]?
  | height {word : String} {value : Nat} (hword : words[0]? = some word)
      (hvalue : IsMeasure word value) (h : ∀ word ∈ words[1]?, ∀ value, ¬ IsMeasure word value) :
      FirstFailing words .height words[1]?

theorem IsMeasure.eq {word : String} {value other : Nat} (h : IsMeasure word value)
    (hother : IsMeasure word other) : value = other :=
  h.1.value_eq.symm.trans hother.1.value_eq

theorem Numeral.message_of_read {word : String} {fault : Fault} (h : read word = .error fault) :
    fault.message = complaint word := by
  rw [eq_of_read_eq_error h, apply_ite Fault.message]
  rfl

namespace Statement

/-- A word that is no measure is refused for the first thing that is wrong with it. -/
theorem readMeasure_cases (measure : Measure) (words : List String) :
    (∃ word rest value, words = word :: rest ∧ IsMeasure word value ∧
      readMeasure measure words = .ok (value, rest)) ∨
    ((∀ word ∈ words[0]?, ∀ value, ¬ IsMeasure word value) ∧
      ∃ fault, readMeasure measure words = .error fault ∧
        fault.kind = .malformedDirective "DIM" (measure.reason words[0]?)) := by
  cases words with
  | nil => exact .inr ⟨by simp, .missing measure, rfl, rfl⟩
  | cons word rest =>
    have hfirst {P : String → Prop} (h : P word) : ∀ other ∈ (word :: rest)[0]?, P other := by
      rintro other hother
      rwa [← Option.some.inj hother]
    rw [readMeasure, List.getElem?_cons_zero, Measure.reason]
    cases hread : Numeral.read word with
    | error fault =>
      have hnot (value : Nat) (hle : value ≤ 65535) : ¬ Numeral.Denotes word value := by
        intro hdenotes
        rw [Numeral.read_eq_ok_iff.mpr ⟨hdenotes, hle⟩] at hread
        contradiction
      rw [if_neg (hnot 0 (by decide)), ← Numeral.message_of_read hread]
      exact .inr ⟨hfirst fun value hvalue => hnot value hvalue.2.2 hvalue.1,
        .badNumeral measure word fault, rfl, rfl⟩
    | ok value =>
      obtain ⟨hdenotes, hle⟩ := Numeral.read_eq_ok_iff.mp hread
      cases value with
      | zero =>
        have hnot (value : Nat) : ¬ IsMeasure word value := by
          rintro ⟨hvalue, hpos, -⟩
          rw [← hvalue.value_eq, hdenotes.value_eq] at hpos
          contradiction
        rw [if_pos hdenotes]
        exact .inr ⟨hfirst hnot, .notPositive measure, rfl, rfl⟩
      | succ value =>
        exact .inl ⟨word, rest, value + 1, rfl, ⟨hdenotes, Nat.succ_pos value, hle⟩, rfl⟩

/-- Either both words give a measure, or the first that does not is at fault. -/
theorem ofMeasures_cases (words : List String) :
    (∃ first second rest width height, words = first :: second :: rest ∧
      IsMeasure first width ∧ IsMeasure second height ∧
        ofMeasures words = .dimensions width height) ∨
    (∃ measure word? fault, FirstFailing words measure word? ∧ ofMeasures words = .malformed fault ∧
        fault.kind = .malformedDirective "DIM" (measure.reason word?)) := by
  rcases readMeasure_cases .width words with
    ⟨first, rest, width, rfl, hwidth, hread⟩ | ⟨hnot, fault, hfault, hkind⟩
  · rcases readMeasure_cases .height rest with
      ⟨second, others, height, rfl, hheight, hread'⟩ | ⟨hnot, fault, hfault, hkind⟩
    · refine .inl ⟨first, second, others, width, height, rfl, hwidth, hheight, ?_⟩
      rw [ofMeasures, hread]
      dsimp only
      rw [hread']
    · refine .inr ⟨.height, _, fault, .height rfl hwidth hnot, ?_, hkind⟩
      rw [ofMeasures, hread]
      dsimp only
      rw [hfault]
  · refine .inr ⟨.width, _, fault, .width hnot, ?_, hkind⟩
    rw [ofMeasures, hfault]

/-- A line that begins with `DIM` gives a width and a height exactly if the next two words are
numerals between 1 and 65535, and then these are their values. Otherwise the line is malformed, for
the first of the two that cannot be read. -/
theorem ofText_dim {text : String} {rest : List String} (h : Text.words text = "DIM" :: rest) :
    (∀ width height, ofText text = .dimensions width height ↔
      ∃ first second others, rest = first :: second :: others ∧
        IsMeasure first width ∧ IsMeasure second height) ∧
    ((∀ width height, ofText text ≠ .dimensions width height) →
      ∃ measure word? fault, FirstFailing rest measure word? ∧ ofText text = .malformed fault ∧
        fault.kind = .malformedDirective "DIM" (measure.reason word?)) := by
  have htext : ofText text = ofMeasures rest := by
    rw [ofText, h, ofWords_dim]
  rw [htext]
  rcases ofMeasures_cases rest with
    ⟨first, second, others, width, height, rfl, hwidth, hheight, hsize⟩ |
      ⟨measure, word?, fault, hfailing, hfault, hkind⟩
  · rw [hsize]
    refine ⟨?_, fun hnone => absurd rfl (hnone width height)⟩
    intro width' height'
    constructor
    · intro hsame
      obtain ⟨rfl, rfl⟩ := Statement.dimensions.inj hsame
      exact ⟨first, second, others, rfl, hwidth, hheight⟩
    · rintro ⟨first', second', others', hwords, hwidth', hheight'⟩
      obtain ⟨rfl, htail⟩ := List.cons.inj hwords
      obtain ⟨rfl, -⟩ := List.cons.inj htail
      rw [hwidth.eq hwidth', hheight.eq hheight']
  · rw [hfault]
    refine ⟨?_, fun _ => ⟨measure, word?, fault, hfailing, rfl, hkind⟩⟩
    intro width height
    refine ⟨fun hsame => Statement.noConfusion hsame, ?_⟩
    rintro ⟨first, second, others, rfl, hwidth, hheight⟩
    cases hfailing with
    | width hnot => exact absurd hwidth (hnot first rfl width)
    | height _ _ hnot => exact absurd hheight (hnot second rfl height)

/-- A sign, leading zeros, a no-break space and a third number in one line; in the other a height
that is too large before it turns out to be no numeral. -/
theorem ofText_dim_signs :
    let text := "\tDIM +00065535\u00a0007 0"
    let other := "DIM +1 65536x"
    Text.words text = ["DIM", "+00065535", "007", "0"] ∧
      ofText text = .dimensions 65535 7 ∧
      Text.words other = ["DIM", "+1", "65536x"] ∧
      (∀ width height, ofText other ≠ .dimensions width height) ∧
      ∃ fault, ofText other = .malformed fault ∧ fault.kind = .malformedDirective "DIM"
        "invalid height '65536x': number too large to fit in target type" := by
  intro text other
  have hwords : Text.words text = ["DIM", "+00065535", "007", "0"] := by decide +kernel
  have hother : Text.words other = ["DIM", "+1", "65536x"] := by decide +kernel
  have hsize : ofText text = .dimensions 65535 7 :=
    ((ofText_dim hwords).1 65535 7).mpr ⟨_, _, _, rfl, by decide +kernel, by decide +kernel⟩
  have hone : IsMeasure "+1" 1 := by decide +kernel
  have hnone : ∀ width height, ofText other ≠ .dimensions width height := by
    intro width height hsame
    obtain ⟨first, second, others, hrest, -, hheight⟩ := ((ofText_dim hother).1 width height).mp hsame
    obtain ⟨-, htail⟩ := List.cons.inj hrest
    obtain ⟨rfl, -⟩ := List.cons.inj htail
    exact absurd hheight.1.isDigit (by decide +kernel)
  obtain ⟨measure, word?, fault, hfailing, hfault, hkind⟩ := (ofText_dim hother).2 hnone
  cases hfailing with
  | width hnot => exact absurd hone (hnot "+1" rfl 1)
  | height =>
    refine ⟨hwords, hsize, hother, hnone, fault, hfault, hkind.trans ?_⟩
    decide +kernel

end Statement

end BitFont
