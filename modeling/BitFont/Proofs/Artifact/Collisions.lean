import BitFont.Artifact.Header
import BitFont.Proofs.Artifact.Names
import BitFont.Proofs.Compilation.Coherence
import Mathlib.Data.List.Lattice
import Mathlib.Data.List.Nodup
import Mathlib.Data.List.Pairwise

/-!
# Names that collide

A header has one name for its count and five for each glyph, all behind one stem. Two glyphs have
different identifiers and the endings of the aspects tell them apart, so there are two ways for
names to collide: a glyph is called like the count, or one glyph is called like an aspect of another
one (`nodup_names_iff`).
-/

namespace BitFont

/-! ## Endings -/

/-- All aspects, in the order of a header. -/
def Aspect.all : List Aspect := [.width, .height, .offset, .size]

theorem Aspect.mem_all (aspect : Aspect) : aspect ∈ all := by
  cases aspect <;> decide

theorem Aspect.map_ending_all : all.map ending = ["WIDTH", "HEIGHT", "OFFSET", "SIZE"] := rfl

/-- The last two characters, the very last one first. -/
def Text.lastTwo (text : String) : List Char := text.toList.reverse.take 2

theorem Text.lastTwo_append (text : String) {ending : String} (h : 2 ≤ ending.toList.length) :
    lastTwo (text ++ ending) = lastTwo ending := by
  rw [lastTwo, String.toList_append, List.reverse_append, List.take_append_of_le_length, lastTwo]
  rwa [List.length_reverse]

/-- No two endings have the same last two characters. -/
theorem Aspect.eq_of_lastTwo_ending {aspect other : Aspect} :
    Text.lastTwo aspect.ending = Text.lastTwo other.ending → aspect = other := by
  cases aspect <;> cases other <;> decide

namespace Naming

/-- What an aspect of a glyph is called, without the stem. -/
def tail (id : String) (aspect : Aspect) : String := id ++ "_" ++ aspect.ending

/-- What the constants of a glyph are called, without the stem. -/
def tails (id : String) : List String := id :: Aspect.all.map (tail id)

theorem lastTwo_tail (id : String) (aspect : Aspect) :
    Text.lastTwo (tail id aspect) = Text.lastTwo aspect.ending := by
  apply Text.lastTwo_append
  cases aspect <;> decide

theorem tail_inj {id other : String} {aspect aspect' : Aspect}
    (h : tail id aspect = tail other aspect') : id = other ∧ aspect = aspect' := by
  have hlast := congrArg Text.lastTwo h
  rw [lastTwo_tail, lastTwo_tail] at hlast
  obtain rfl : aspect = aspect' := Aspect.eq_of_lastTwo_ending hlast
  exact ⟨(String.append_left_inj _).mp ((String.append_left_inj _).mp h), rfl⟩

theorem tail_ne_self (id : String) (aspect : Aspect) : tail id aspect ≠ id := by
  intro h
  have hlength := congrArg String.length h
  rw [tail, String.length_append, String.length_append] at hlength
  have hjoint : "_".length = 1 := rfl
  omega

theorem tail_ne_count (id : String) (aspect : Aspect) : tail id aspect ≠ "NUM" := by
  intro h
  have hlast := congrArg Text.lastTwo h
  rw [lastTwo_tail] at hlast
  cases aspect <;> exact absurd hlast (by decide)

theorem mem_tails {id name : String} :
    name ∈ tails id ↔ name = id ∨ ∃ aspect, name = tail id aspect := by
  simp only [tails, List.mem_cons, List.mem_map, Aspect.mem_all, true_and, eq_comm]

/-- The names of one glyph never collide. -/
theorem nodup_tails (id : String) : (tails id).Nodup := by
  rw [tails, List.nodup_cons]
  constructor
  · intro hmem
    obtain ⟨aspect, -, haspect⟩ := List.mem_map.mp hmem
    exact tail_ne_self id aspect haspect
  · have hinjective : Function.Injective (tail id) := fun _ _ h => (tail_inj h).2
    exact (List.nodup_map_iff hinjective).mpr (by decide)

/-- The names of two glyphs collide only if one of them is called like an aspect of the other. -/
theorem disjoint_tails_iff {id other : String} (h : id ≠ other) :
    (tails id).Disjoint (tails other) ↔
      (∀ aspect, id ≠ tail other aspect) ∧ ∀ aspect, other ≠ tail id aspect := by
  constructor
  · intro hdisjoint
    constructor
    · intro aspect hsame
      exact hdisjoint (mem_tails.mpr (.inl rfl)) (mem_tails.mpr (.inr ⟨aspect, hsame⟩))
    · intro aspect hsame
      exact hdisjoint (mem_tails.mpr (.inr ⟨aspect, hsame⟩)) (mem_tails.mpr (.inl rfl))
  · rintro ⟨hid, hother⟩ name hname hname'
    rcases mem_tails.mp hname with rfl | ⟨aspect, rfl⟩ <;>
      rcases mem_tails.mp hname' with hsame | ⟨aspect', hsame⟩
    · exact h hsame
    · exact hid aspect' hsame
    · exact hother aspect hsame.symm
    · exact h (tail_inj hsame).1

/-- The names of a header without their stem. -/
theorem nodup_tails_append_count_iff {ids : List String} (h : ids.Nodup) :
    (ids.flatMap tails ++ ["NUM"]).Nodup ↔
      "NUM" ∉ ids ∧ ∀ id ∈ ids, ∀ other ∈ ids, ∀ aspect, other ≠ tail id aspect := by
  have : Std.Symm (Function.onFun List.Disjoint tails) :=
    ⟨fun _ _ hdisjoint => List.Disjoint.symm hdisjoint⟩
  have hcount : "NUM" ∈ ids.flatMap tails ↔ "NUM" ∈ ids := by
    rw [List.mem_flatMap]
    constructor
    · rintro ⟨id, hid, hname⟩
      rcases mem_tails.mp hname with rfl | ⟨aspect, hsame⟩
      · exact hid
      · exact absurd hsame.symm (tail_ne_count id aspect)
    · intro hid
      exact ⟨"NUM", hid, mem_tails.mpr (.inl rfl)⟩
  rw [← List.concat_eq_append, List.nodup_concat, List.nodup_flatMap, hcount]
  constructor
  · rintro ⟨hnone, -, hdisjoint⟩
    refine ⟨hnone, ?_⟩
    intro id hid other hother aspect hsame
    have hne : id ≠ other := by
      rintro rfl
      exact tail_ne_self id aspect hsame.symm
    exact ((disjoint_tails_iff hne).mp (hdisjoint.forall hid hother hne)).2 aspect hsame
  · rintro ⟨hnone, hother⟩
    refine ⟨hnone, fun id _ => nodup_tails id, h.pairwise_of_forall_ne ?_⟩
    intro id hid other hid' hne
    exact (disjoint_tails_iff hne).mpr ⟨hother other hid' id hid, hother id hid other hid'⟩

end Naming

namespace Header

/-- The stem stands in front of every name. -/
theorem map_name_constants (naming : Naming) (font : Compilation) :
    (ofCompilation naming font).constants.map (·.name) =
      ((font.glyphs.map (·.entry.id)).flatMap Naming.tails ++ ["NUM"]).map
        (naming.stem ++ "_" ++ ·) := by
  have hindex (id : String) : naming.index id = naming.stem ++ "_" ++ id := rfl
  have hglyph (glyph : CompiledGlyph) : (ofGlyph naming glyph).map (·.name) =
      (Naming.tails glyph.entry.id).map (naming.stem ++ "_" ++ ·) := by
    simp only [ofGlyph, Naming.tails, Naming.tail, Aspect.all, List.map_cons, List.map_nil, hindex,
      Naming.aspect_eq, String.append_assoc]
  have hcount : naming.count = naming.stem ++ "_" ++ "NUM" := by
    rw [String.append_assoc]
    rfl
  simp only [constants, ofCompilation, List.map_append, List.map_flatMap, List.flatMap_map, hglyph,
    hcount, List.map_cons, List.map_nil]

theorem length_constants (naming : Naming) (font : Compilation) :
    (ofCompilation naming font).constants.length = 5 * font.glyphs.length + 1 := by
  have hglyphs (glyphs : List CompiledGlyph) :
      (glyphs.flatMap (ofGlyph naming)).length = 5 * glyphs.length := by
    induction glyphs with
    | nil => rfl
    | cons glyph rest ih =>
      rw [List.flatMap_cons, List.length_append, ih, List.length_cons, Nat.mul_succ, Nat.add_comm]
      rfl
  rw [constants, List.length_append, List.length_singleton, ofCompilation, hglyphs]

/-- The names in the header of a text are all different, unless a glyph is called `NUM`, or one
glyph is called like an aspect of another one. -/
theorem nodup_names_iff (text stem : String) :
    let glyphs := (Compilation.ofText text).glyphs
    let names := (ofCompilation ⟨stem⟩ (Compilation.ofText text)).constants.map (·.name)
    names.length = 5 * glyphs.length + 1 ∧
      (names.Nodup ↔
        (∀ glyph ∈ glyphs, glyph.entry.id ≠ "NUM") ∧
          ∀ glyph ∈ glyphs, ∀ other ∈ glyphs,
            ∀ ending ∈ ["WIDTH", "HEIGHT", "OFFSET", "SIZE"],
              other.entry.id ≠ glyph.entry.id ++ "_" ++ ending) := by
  intro glyphs names
  have hids : (glyphs.map (·.entry.id)).Nodup := by
    have hentries := Compilation.map_entry_glyphs (Definitions.ofText text)
    have hmap := Compilation.map_id_entries_ofDefinitions (Definitions.ofText text)
    rw [← hentries, List.map_map] at hmap
    have hnodup := Definitions.nodup_ids_glyphs text
    exact hmap ▸ hnodup
  have hinjective : Function.Injective (stem ++ "_" ++ · : String → String) :=
    fun _ _ h => (String.append_right_inj _).mp h
  have hendings (id other : String) : (∀ aspect, other ≠ Naming.tail id aspect) ↔
      ∀ ending ∈ ["WIDTH", "HEIGHT", "OFFSET", "SIZE"], other ≠ id ++ "_" ++ ending := by
    rw [← Aspect.map_ending_all, List.forall_mem_map]
    exact ⟨fun h aspect _ => h aspect, fun h aspect => h aspect aspect.mem_all⟩
  constructor
  · rw [List.length_map, length_constants]
  · have hnames : names = ((glyphs.map (·.entry.id)).flatMap Naming.tails ++ ["NUM"]).map
        (stem ++ "_" ++ ·) := map_name_constants ⟨stem⟩ _
    rw [hnames, List.nodup_map_iff hinjective, Naming.nodup_tails_append_count_iff hids]
    simp only [hendings, List.mem_map, not_exists, not_and, forall_exists_index, and_imp,
      forall_apply_eq_imp_iff₂, ne_eq]

end Header

end BitFont
