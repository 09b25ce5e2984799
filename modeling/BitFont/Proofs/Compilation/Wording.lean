import BitFont.Proofs.Compilation.Streams
import BitFont.Proofs.Definitions.Matching

/-!
# The layout of a text does not matter

A font hangs on the words of the significant lines alone. How the words are separated and the lines
ended, blank lines, comments and everything behind the `END` line change neither glyphs nor data,
and of the diagnostics only the places.
-/

namespace BitFont.Compilation

/-- Significant lines of two texts match at equal positions. -/
def SamePlace (text other : String) (location location' : Location) : Prop :=
  ∃ pair ∈ (Line.significant text).zip (Line.significant other),
    pair.1.location = location ∧ pair.2.location = location'

theorem matches_significant {text other : String}
    (h : (Line.significant text).map Line.words = (Line.significant other).map Line.words) :
    List.Forall₂ (Line.Matches (SamePlace text other)) (Line.significant text)
      (Line.significant other) := by
  have hwords : List.Forall₂ (fun words words' : List String => words = words')
      ((Line.significant text).map Line.words) ((Line.significant other).map Line.words) := by
    rw [List.forall₂_eq_eq_eq]
    exact h
  rw [List.forall₂_map_left_iff, List.forall₂_map_right_iff] at hwords
  rw [List.forall₂_iff_zip] at hwords ⊢
  refine ⟨hwords.1, ?_⟩
  intro line line' hmem
  exact ⟨hwords.2 hmem, (line, line'), hmem, rfl, rfl⟩

theorem matches_ofText {text other : String}
    (h : (Line.significant text).map Line.words = (Line.significant other).map Line.words) :
    (Definitions.ofText text).untraced.Matches (SamePlace text other)
      (Definitions.ofText other).untraced := by
  rw [Definitions.untraced_ofText_eq_foldl, Definitions.untraced_ofText_eq_foldl]
  have hstart := Reading.matches_empty (SamePlace text other)
  exact (hstart.foldl_step (matches_significant h)).finish

/-- Two texts whose significant lines have the same words, line by line, have the same glyphs, the
same stream and the same layout. Their diagnostics agree one by one in glyph and kind, and stand at
lines that are significant at the same position. -/
theorem ofText_of_same_words {text other : String}
    (h : (Line.significant text).map Line.words = (Line.significant other).map Line.words) :
    (Definitions.ofText text).glyphs = (Definitions.ofText other).glyphs ∧
      (ofText text).payload = (ofText other).payload ∧
      (ofText text).layout = (ofText other).layout ∧
      List.Forall₂
        (fun problem problem' : Diagnostic =>
          problem.glyph = problem'.glyph ∧ problem.kind = problem'.kind ∧
            ∃ pair ∈ (Line.significant text).zip (Line.significant other),
              pair.1.location = problem.location ∧ pair.2.location = problem'.location)
        (Definitions.ofText text).diagnostics.toList
        (Definitions.ofText other).diagnostics.toList := by
  have hmatch := matches_ofText h
  have hglyphs : (Definitions.ofText text).glyphs = (Definitions.ofText other).glyphs :=
    hmatch.glyphs
  refine ⟨hglyphs, ?_, ?_, ?_⟩
  · rw [ofText, ofText, payload_ofDefinitions, payload_ofDefinitions, hglyphs]
  · rw [ofText, ofText, layout_ofDefinitions, layout_ofDefinitions, hglyphs]
  · have hproblems := hmatch.diagnostics
    exact hproblems.imp fun _ _ hproblem => ⟨hproblem.glyph, hproblem.kind, hproblem.location⟩

/-- Spaces of many kinds, carriage returns, blank lines, comments and text behind `END` in one of
two texts, which both have problems and define a glyph again. -/
theorem ofText_of_same_words_spread :
    let text := "DIM 1 8\nID a\nDIM 2 9\nX\nID b\nID a\nDIM 2 8\nX -\n"
    let other := "\r\n# ID c\n\tDIM\u00a01  8\r\n\r\nID a\r\r\nDIM 2\u20039\n  X\n#\nID\u3000b\n" ++
      "ID a\nDIM\t2 8 \n\n X\r-\nEND\nID c\n"
    (Line.significant text).map Line.words = (Line.significant other).map Line.words ∧
      (ofText text).payload = (ofText other).payload := by
  intro text other
  have h : (Line.significant text).map Line.words = (Line.significant other).map Line.words := by
    decide +kernel
  exact ⟨h, (ofText_of_same_words h).2.1⟩

end BitFont.Compilation
