import BitFont.Proofs.Definitions.Matching
import BitFont.Proofs.Text.Marks
import BitFont.Source

/-!
# What labels stand at

Diagnostics are reported long after the lines that they are about: when a glyph is closed, rows and
the `ID` line are known by their stored locations alone. All of these are locations of lines
(`exists_line_of_mem_diagnostics`), so the label of every report covers one line of the text without
its ending (`Source.reports_mark_lines`).
-/

namespace BitFont

/-- Both locations are that of one line of the text. -/
def Line.SharedBy (text : String) (location location' : Location) : Prop :=
  ∃ line ∈ ofText text, line.location = location ∧ line.location = location'

/-- Reading stores the locations of lines and no others: it matches itself when locations are
related that belong to one line. -/
theorem Definitions.exists_line_of_mem_diagnostics {text : String} {diagnostic : Diagnostic}
    (h : diagnostic ∈ (ofText text).diagnostics) :
    ∃ line ∈ Line.ofText text, line.location = diagnostic.location := by
  have hlines : List.Forall₂ (Line.Matches (Line.SharedBy text)) (Line.significant text)
      (Line.significant text) := by
    rw [List.forall₂_same]
    intro line hline
    have hread : line ∈ Line.ofText text := List.takeWhile_subset _ (List.mem_of_mem_filter hline)
    exact ⟨rfl, line, hread, rfl, rfl⟩
  have hfound : (ofText text).untraced.Matches (Line.SharedBy text) (ofText text).untraced := by
    rw [untraced_ofText_eq_foldl]
    exact ((Reading.matches_empty _).foldl_step hlines).finish
  obtain ⟨line, hline, hlocation, -⟩ :=
    (List.forall₂_same.mp hfound.diagnostics diagnostic (Array.mem_toList_iff.mpr h)).location
  exact ⟨line, hline, hlocation⟩

/-- Every diagnostic of a text marks one of its pieces, and the reports give the marked ranges and
the wording of the problems, in order. -/
theorem Source.reports_mark_lines (source : Source) (severity : Severity) :
    let font := Compilation.ofText source.text
    (∃ pieces, Text.IsCut source.text pieces ∧
        ∀ diagnostic ∈ font.diagnostics, diagnostic.location.Marks source.text pieces) ∧
      (source.reports font severity).map
          (fun report => (report.offset, report.length, report.label)) =
        font.diagnostics.map fun diagnostic =>
          (diagnostic.location.start, diagnostic.location.stop - diagnostic.location.start,
            diagnostic.kind.message) := by
  intro font
  refine ⟨⟨_, Text.isCut_pieces source.text, ?_⟩, ?_⟩
  · intro diagnostic hdiagnostic
    have hfound : diagnostic ∈ (Definitions.ofText source.text).diagnostics :=
      Array.mem_toList_iff.mp hdiagnostic
    obtain ⟨line, hline, hlocation⟩ := Definitions.exists_line_of_mem_diagnostics hfound
    rw [← hlocation]
    exact Line.marks_of_mem_ofText hline
  · rw [reports, List.map_map]
    rfl

/-- The last line has no ending, a line in front of it has several carriage returns, and the text
is not all ASCII. -/
theorem Source.reports_mark_lines_unterminated :
    let source : Source := { name := "a", text := "ID \u00e5\r\nDIM 1 9\r\r\n\nDIM \u00e5" }
    let diagnostic : Diagnostic :=
      { glyph := some "\u00e5", location := { line := 4, start := 18, stop := 24 }
        kind := .malformedDirective "DIM" "invalid width '\u00e5': invalid digit found in string" }
    diagnostic ∈ (Compilation.ofText source.text).diagnostics ∧
      ∃ pieces, Text.IsCut source.text pieces ∧
        diagnostic.location.Marks source.text pieces := by
  intro source diagnostic
  have hmem : diagnostic ∈ (Compilation.ofText source.text).diagnostics := by decide +kernel
  obtain ⟨⟨pieces, hcut, hmarks⟩, -⟩ := source.reports_mark_lines .warning
  exact ⟨hmem, pieces, hcut, hmarks diagnostic hmem⟩

end BitFont
