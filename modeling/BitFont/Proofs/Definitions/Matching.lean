import BitFont.Proofs.Definitions.Significance
import Mathlib.Data.List.Forall2

/-!
# Texts of the same words

Two runs over lines with the same words differ in nothing but the locations that they report. For a
relation `R` between locations, lines match when their words are equal and their locations related;
one step keeps two readings matched (`Reading.Matches.step`), so two runs over matching lines end in
the same glyphs, and in diagnostics that differ only by related locations.
-/

namespace BitFont

variable {R : Location → Location → Prop}

/-! ## What matches -/

/-- Lines of the same words. -/
structure Line.Matches (R : Location → Location → Prop) (line other : Line) : Prop where
  words : line.words = other.words
  location : R line.location other.location

/-- The same problem, found at related lines. -/
structure Diagnostic.Matches (R : Location → Location → Prop) (found other : Diagnostic) :
    Prop where
  glyph : found.glyph = other.glyph
  kind : found.kind = other.kind
  location : R found.location other.location

structure DraftRow.Matches (R : Location → Location → Prop) (row other : DraftRow) : Prop where
  bits : row.bits = other.bits
  location : R row.location other.location

structure Draft.Matches (R : Location → Location → Prop) (draft other : Draft) : Prop where
  id : draft.id = other.id
  dimensions : draft.dimensions = other.dimensions
  location : R draft.location other.location
  rows : List.Forall₂ (DraftRow.Matches R) draft.rows.toList other.rows.toList

/-- The same glyphs, and the same problems at related lines. -/
structure Definitions.Matches (R : Location → Location → Prop) (found other : Definitions) :
    Prop where
  glyphs : found.glyphs = other.glyphs
  diagnostics :
    List.Forall₂ (Diagnostic.Matches R) found.diagnostics.toList other.diagnostics.toList

structure Reading.Matches (R : Location → Location → Prop) (reading other : Reading) : Prop where
  draft : Option.Rel (Draft.Matches R) reading.draft other.draft
  found : reading.found.Matches R other.found

/-! ## Drafts -/

namespace Draft.Matches

variable {draft other : Draft}

theorem problem (h : draft.Matches R other) {location location' : Location}
    (hlocation : R location location') (kind : Diagnostic.Kind) :
    (draft.problem location kind).Matches R (other.problem location' kind) where
  glyph := congrArg some h.id
  kind := rfl
  location := hlocation

theorem resize (h : draft.Matches R other) (width height : Nat) :
    (draft.resize width height).Matches R (other.resize width height) :=
  ⟨h.id, rfl, h.location, h.rows⟩

theorem addRow (h : draft.Matches R other) (bits : List Bool) {location location' : Location}
    (hlocation : R location location') :
    (draft.addRow bits location).Matches R (other.addRow bits location') := by
  refine ⟨h.id, h.dimensions, h.location, ?_⟩
  simp only [Draft.addRow, Array.toList_push]
  exact List.rel_append h.rows (.cons ⟨rfl, hlocation⟩ .nil)

theorem map_bits (h : draft.Matches R other) :
    draft.rows.map (·.bits) = other.rows.map (·.bits) := by
  apply Array.ext'
  rw [Array.toList_map, Array.toList_map, ← List.forall₂_eq_eq_eq, List.forall₂_map_left_iff,
    List.forall₂_map_right_iff]
  exact h.rows.imp fun _ _ hrow => hrow.bits

theorem glyph (h : draft.Matches R other) : draft.glyph = other.glyph := by
  have hextent : draft.extent = other.extent := by rw [extent, extent, h.dimensions]
  have hrows : draft.rows.map (fun row => Row.fit row.bits other.extent.1) =
      other.rows.map fun row => Row.fit row.bits other.extent.1 := by
    have hbits := congrArg (Array.map fun bits => Row.fit bits other.extent.1) h.map_bits
    rw [Array.map_map, Array.map_map] at hbits
    exact hbits
  rw [Draft.glyph, Draft.glyph, h.id, hextent, hrows]

theorem size_rows (h : draft.Matches R other) : draft.rows.size = other.rows.size := by
  have hlength := h.rows.length_eq
  rw [Array.length_toList, Array.length_toList] at hlength
  exact hlength

/-- Rows keep their numbers, so a row is short in both drafts or in none. -/
theorem shortRows (h : draft.Matches R other) (width : Nat) :
    List.Forall₂ (Diagnostic.Matches R) (draft.shortRows width) (other.shortRows width) := by
  have hrows : ∀ {rows others : List DraftRow} (n : Nat),
      List.Forall₂ (DraftRow.Matches R) rows others →
      List.Forall₂ (fun item item' => item.1.Matches R item'.1 ∧ item.2 = item'.2)
        (rows.zipIdx n) (others.zipIdx n) := by
    intro rows others n hmatch
    induction hmatch generalizing n with
    | nil => exact .nil
    | cons hrow _ ih => exact .cons ⟨hrow, rfl⟩ (ih (n + 1))
  rw [Draft.shortRows, Draft.shortRows]
  refine List.rel_filterMap ?_ (hrows 0 h.rows)
  rintro ⟨row, index⟩ ⟨row', index'⟩ ⟨hrow, hindex⟩
  obtain rfl : index = index' := hindex
  dsimp only
  rw [hrow.bits]
  split
  · exact .some (h.problem hrow.location _)
  · exact .none

theorem problems (h : draft.Matches R other) :
    List.Forall₂ (Diagnostic.Matches R) draft.problems other.problems := by
  rw [Draft.problems, Draft.problems, h.dimensions]
  cases other.dimensions with
  | none => exact .cons (h.problem h.location _) .nil
  | some dimensions =>
    refine List.rel_append (h.shortRows dimensions.1) ?_
    rw [rowCount, rowCount, h.size_rows]
    split
    · exact .nil
    · exact .cons (h.problem h.location _) .nil

end Draft.Matches

/-! ## Definitions -/

namespace Definitions.Matches

variable {found other : Definitions}

theorem report (h : found.Matches R other) {problems problems' : List Diagnostic}
    (hproblems : List.Forall₂ (Diagnostic.Matches R) problems problems') :
    (found.report problems).Matches R (other.report problems') := by
  refine ⟨h.glyphs, ?_⟩
  simp only [Definitions.report, Array.toList_appendList]
  exact List.rel_append h.diagnostics hproblems

theorem define (h : found.Matches R other) (glyph : Glyph) :
    (found.define glyph).Matches R (other.define glyph) := by
  unfold Definitions.define
  rw [h.glyphs]
  split
  · exact ⟨rfl, h.diagnostics⟩
  · exact ⟨rfl, h.diagnostics⟩

theorem close (h : found.Matches R other) {draft draft' : Option Draft}
    (hdraft : Option.Rel (Draft.Matches R) draft draft') :
    (found.close draft).Matches R (other.close draft') := by
  cases hdraft with
  | none => exact h
  | some hdraft =>
    rw [Definitions.close, Definitions.close, hdraft.glyph]
    exact (h.report hdraft.problems).define _

end Definitions.Matches

/-! ## Runs -/

namespace Reading.Matches

variable {reading other : Reading}

theorem finish (h : reading.Matches R other) : reading.finish.Matches R other.finish :=
  h.found.close h.draft

/-- Lines of the same words do the same, up to the locations that are noted for rows, drafts and
problems. -/
theorem step (h : reading.Matches R other) {line line' : Line} (hline : line.Matches R line') :
    (reading.step line).Matches R (other.step line') := by
  obtain ⟨draft, found⟩ := reading
  obtain ⟨draft', found'⟩ := other
  obtain ⟨hdraft, hfound⟩ := h
  dsimp only at hdraft hfound
  rw [Reading.step, Reading.step, Line.statement_eq_of_words hline.words]
  cases line'.statement with
  | skip => exact ⟨hdraft, hfound⟩
  | finish => exact ⟨hdraft, hfound⟩
  | glyph id => exact ⟨.some ⟨rfl, rfl, hline.location, .nil⟩, hfound.close hdraft⟩
  | dimensions width height =>
    cases hdraft with
    | none => exact ⟨.none, hfound.report (.cons ⟨rfl, rfl, hline.location⟩ .nil)⟩
    | some hdraft =>
      refine ⟨.some (hdraft.resize width height), hfound.report ?_⟩
      split
      · exact .nil
      · exact .cons (hdraft.problem hline.location _) .nil
  | row bits =>
    cases hdraft with
    | none => exact ⟨.none, hfound.report (.cons ⟨rfl, rfl, hline.location⟩ .nil)⟩
    | some hdraft => exact ⟨.some (hdraft.addRow bits hline.location), hfound⟩
  | malformed fault =>
    refine ⟨hdraft, hfound.report (.cons ⟨?_, rfl, hline.location⟩ .nil)⟩
    cases hdraft with
    | none => rfl
    | some hdraft => exact congrArg some hdraft.id

theorem foldl_step (h : reading.Matches R other) {lines lines' : List Line}
    (hlines : List.Forall₂ (Line.Matches R) lines lines') :
    (lines.foldl Reading.step reading).Matches R (lines'.foldl Reading.step other) := by
  induction hlines generalizing reading other with
  | nil => exact h
  | cons hline _ ih => exact ih (h.step hline)

end Reading.Matches

theorem Reading.matches_empty (R : Location → Location → Prop) :
    Reading.Matches R {} {} := ⟨.none, rfl, .nil⟩

end BitFont
