import BitFont.Compilation
import BitFont.Proofs.Artifact.Reader
import BitFont.Proofs.Definitions.Clarity

/-!
# Lines of a report

A report has one line for each diagnostic, and a count in front of them if there are several. No word
of the text can add a line, end one or join two, since no message goes over the end of a line
(`Compilation.lines_report`).
-/

namespace BitFont

namespace Diagnostic

/-- The lines of a report: the count of two diagnostics or more, then one line for each. -/
def reportLines (diagnostics : List Diagnostic) : List String :=
  (if 2 ≤ diagnostics.length then [s!"{diagnostics.length} errors:"] else []) ++
    diagnostics.map fun diagnostic => s!"ERROR: {diagnostic.message}"

theorem report_eq_text (diagnostics : List Diagnostic) :
    report diagnostics = Listing.text (reportLines diagnostics) := by
  have hlines : Listing.text (diagnostics.map fun diagnostic => s!"ERROR: {diagnostic.message}") =
      String.join (diagnostics.map reportLine) := by
    rw [Listing.text, List.map_map]
    rfl
  have hend : " errors:\n" = " errors:" ++ "\n" := by decide
  unfold report reportLines
  by_cases hcount : 2 ≤ diagnostics.length
  · rw [if_neg (by omega), if_pos hcount, List.singleton_append, Listing.text_cons, hlines, hend]
    simp only [String.append_assoc]
    rfl
  · rw [if_pos (by omega), if_neg hcount, List.nil_append, hlines]

theorem isLine_of_mem_reportLines {diagnostics : List Diagnostic}
    (h : ∀ diagnostic ∈ diagnostics, Text.IsLine diagnostic.message) :
    ∀ line ∈ reportLines diagnostics, Text.IsLine line := by
  intro line hline
  rcases List.mem_append.mp hline with hcount | hmessage
  · split at hcount
    · rw [List.mem_singleton.mp hcount]
      have hback : Text.IsLine " errors:" := by decide
      exact (Text.isLine_toString _).append hback
    · simp at hcount
  · obtain ⟨diagnostic, hmem, rfl⟩ := List.mem_map.mp hmessage
    have hfront : Text.IsLine "ERROR: " := by decide
    exact hfront.append (h diagnostic hmem)

theorem report_eq_empty_iff (diagnostics : List Diagnostic) :
    report diagnostics = "" ↔ diagnostics = [] := by
  constructor
  · intro h
    cases diagnostics with
    | nil => rfl
    | cons first rest =>
      rw [report_eq_text, reportLines, List.map_cons] at h
      split at h <;> simp [Listing.text_cons] at h
  · rintro rfl
    rfl

end Diagnostic

namespace Compilation

theorem isClear_of_mem_diagnostics {text : String} {diagnostic : Diagnostic}
    (h : diagnostic ∈ (ofText text).diagnostics) : diagnostic.IsClear :=
  Definitions.isClear_ofText text diagnostic (Array.mem_toList_iff.mp h)

/-- Cut at its line feeds, the report of a text is a count, where there are several diagnostics, and
one line for each of them, with nothing behind the last line feed. The message of a diagnostic has no
white space but plain spaces, and so it stays on its line, and the identifier in it has none at all. -/
theorem lines_report (text : String) :
    let found := (ofText text).diagnostics
    Listing.lines (Diagnostic.report found) =
        (if 2 ≤ found.length then [s!"{found.length} errors:"] else []) ++
          found.map (fun diagnostic => s!"ERROR: {diagnostic.message}") ++ [""] ∧
      (Diagnostic.report found = "" ↔ found = []) ∧
      ∀ diagnostic ∈ found, Text.IsLine diagnostic.message ∧
        ∀ id ∈ diagnostic.glyph, Text.IsWord id := by
  intro found
  have hmessage : ∀ diagnostic ∈ found, Text.IsLine diagnostic.message :=
    fun _ hmem => (isClear_of_mem_diagnostics hmem).isLine_message
  refine ⟨?_, Diagnostic.report_eq_empty_iff found, ?_⟩
  · rw [Diagnostic.report_eq_text]
    apply Listing.lines_text
    intro line hline
    exact (Diagnostic.isLine_of_mem_reportLines hmessage line hline).lacks (by decide)
  · intro diagnostic hmem
    exact ⟨hmessage diagnostic hmem, (isClear_of_mem_diagnostics hmem).glyph⟩

/-- An identifier of control characters, cut off by a line separator, and a number with an escape
character in front of a next-line character. -/
theorem lines_report_separators :
    let text := "ID \u001e\u200bERROR:\u2028B\r\nDIM \u001b9\u00858\n"
    let missing : Diagnostic :=
      { glyph := some "\u001e\u200bERROR:", location := { line := 1, start := 0, stop := 17 }
        kind := .missingDimensions }
    missing ∈ (ofText text).diagnostics ∧ Text.IsLine missing.message ∧
      Listing.lines (Diagnostic.report (ofText text).diagnostics) =
        ["2 errors:",
          "ERROR: \u001e\u200bERROR:: malformed 'DIM' directive: invalid width '\u001b9': " ++
            "invalid digit found in string (line 2)",
          "ERROR: \u001e\u200bERROR:: missing 'DIM' directive (line 1)", ""] := by
  intro text missing
  have hfound : (ofText text).diagnostics =
      [{ glyph := some "\u001e\u200bERROR:", location := { line := 2, start := 19, stop := 28 }
         kind := .malformedDirective "DIM"
          "invalid width '\u001b9': invalid digit found in string" }, missing] := by
    decide +kernel
  have hmem : missing ∈ (ofText text).diagnostics := by
    rw [hfound]
    simp
  obtain ⟨hlines, -, hclear⟩ := lines_report text
  refine ⟨hmem, (hclear missing hmem).1, hlines.trans ?_⟩
  rw [hfound]
  decide +kernel

end Compilation

end BitFont
