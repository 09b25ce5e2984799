import BitFont.Proofs.Compilation.Streams
import BitFont.Proofs.Definitions.Diagnostics
import BitFont.Proofs.Definitions.Identifiers
import BitFont.Proofs.Definitions.Matching
import BitFont.Proofs.Definitions.Placing
import BitFont.Proofs.Text.Lines
import Mathlib.Data.List.TakeWhile

/-!
# Joined texts

A text can be put behind another one when the cut falls between two lines, the first text does not
end early, and the second begins with a glyph of its own. The `ID` line of the second text then
closes the last glyph of the first as its end would do, so the joined text defines what the two
define, one behind the other (`untraced_ofText_append`).
-/

namespace BitFont

/-! ## Significant lines of joined texts -/

namespace Line

theorem opened?_shift (lines bytes : Nat) (line : Line) :
    (line.shift lines bytes).opened? = line.opened? := rfl

theorem significant_append {text : String} (hcut : ∀ last ∈ text.toList.getLast?, last = '\n')
    (hend : ∀ line ∈ ofText text, line.isEnd = false) (other : String) :
    significant (text ++ other) =
      significant text ++
        (significant other).map (shift (ofText text).length text.utf8ByteSize) := by
  have hall : ∀ line ∈ ofText text, (!line.isEnd) = true := by
    intro line hline
    rw [hend line hline]
    rfl
  rw [significant, ofText_append hcut, List.takeWhile_append_of_pos hall, List.filter_append,
    List.takeWhile_map, List.filter_map, significant, List.takeWhile_eq_self_iff.mpr hall]
  rfl

/-- The first significant line of a text is its first line that is neither blank nor a comment. -/
theorem find?_isSignificant_of_head? {text : String} {line : Line}
    (h : (significant text).head? = some line) : (ofText text).find? isSignificant = some line := by
  rw [significant, List.head?_filter] at h
  exact (List.takeWhile_prefix _).find?_eq_some h

end Line

/-! ## Runs over joined texts -/

/-- Lines that begin with an `ID` line, if there are any, are lines of blocks. -/
theorem Block.flatMap_lines_cut {lines : List Line}
    (h : ∀ line ∈ lines.head?, line.opened? ≠ none) : (cut lines).flatMap Block.lines = lines := by
  have hprelude : lines.takeWhile (·.opened?.isNone) = [] := by
    cases lines with
    | nil => rfl
    | cons line rest =>
      rw [List.takeWhile_cons_of_neg]
      simpa using h line rfl
  have hlines := Outline.lines_ofLines lines
  rw [Outline.lines, Outline.ofLines] at hlines
  dsimp only at hlines
  rw [hprelude, List.nil_append] at hlines
  exact hlines

/-- What stands behind some lines is read as if the last draft had been closed before. -/
theorem Reading.finish_foldl_step_append (lines : List Line) {others : List Line}
    (h : ∀ line ∈ others.head?, line.opened? ≠ none) :
    ((lines ++ others).foldl step {}).finish =
      (Block.cut others).foldl Definitions.addBlock (lines.foldl step {}).finish := by
  have hblocks := finish_foldl_step_blocks (lines.foldl step {}).draft
    (lines.foldl step {}).found (Block.cut others)
  rw [Block.flatMap_lines_cut h] at hblocks
  rw [List.foldl_append]
  exact hblocks

/-- The problem behind some lines and bytes more. -/
def Diagnostic.shift (lines bytes : Nat) (diagnostic : Diagnostic) : Diagnostic :=
  { diagnostic with location := diagnostic.location.shift lines bytes }

/-- Related by a move, and not only equal up to the location. -/
theorem Diagnostic.eq_map_shift {lines bytes : Nat} {problems others : List Diagnostic}
    (h : List.Forall₂ (Diagnostic.Matches fun location moved => moved = location.shift lines bytes)
      problems others) : others = problems.map (shift lines bytes) := by
  induction h with
  | nil => rfl
  | @cons problem other _ _ hproblem _ ih =>
    obtain ⟨glyph, location, kind⟩ := problem
    obtain ⟨glyph', location', kind'⟩ := other
    obtain ⟨hglyph, hkind, hlocation⟩ := hproblem
    dsimp only at hglyph hkind hlocation
    rw [List.map_cons, ← ih, shift, hglyph, hkind, hlocation]

/-- The texts can be joined: the cut falls between two lines, the first text has no `END` line, and
the first line of the second that is neither blank nor a comment opens a glyph. -/
structure Joinable (text other : String) : Prop where
  cut : text = "" ∨ text.toList.getLast? = some '\n'
  open_end : ∀ line ∈ Line.ofText text, line.isEnd = false
  opening : ∀ line ∈ (Line.ofText other).find? Line.isSignificant,
    ∃ id rest, line.words = "ID" :: id :: rest

namespace Joinable

variable {text other : String}

theorem getLast?_eq (h : Joinable text other) : ∀ last ∈ text.toList.getLast?, last = '\n' := by
  intro last hlast
  rcases h.cut with rfl | hcut
  · simp at hlast
  · rw [hcut] at hlast
    exact (Option.some.inj hlast).symm

theorem head?_opened (h : Joinable text other) (lines bytes : Nat) :
    ∀ line ∈ ((Line.significant other).map (Line.shift lines bytes)).head?,
      line.opened? ≠ none := by
  intro line hline
  rw [List.head?_map] at hline
  obtain ⟨first, hfirst, rfl⟩ := Option.map_eq_some_iff.mp hline
  obtain ⟨id, rest, hwords⟩ := h.opening first (Line.find?_isSignificant_of_head? hfirst)
  rw [Line.opened?_shift, Line.opened?_of_words hwords]
  simp

/-- The joined text adds the blocks of the second text to what the first defines, and on their own
these blocks define what the second text does, at lines that are moved on. -/
theorem untraced_ofText_append (h : Joinable text other) :
    ∃ blocks : List Block,
      (Definitions.ofText (text ++ other)).untraced =
        blocks.foldl Definitions.addBlock (Definitions.ofText text).untraced ∧
      (Definitions.ofText other).untraced.Matches
        (fun location moved => moved = location.shift (Line.ofText text).length text.utf8ByteSize)
        (blocks.foldl Definitions.addBlock {}) := by
  generalize hlines : (Line.significant other).map
    (Line.shift (Line.ofText text).length text.utf8ByteSize) = lines
  have hopened := h.head?_opened (Line.ofText text).length text.utf8ByteSize
  rw [hlines] at hopened
  refine ⟨Block.cut lines, ?_, ?_⟩
  · rw [Definitions.untraced_ofText_eq_foldl, Definitions.untraced_ofText_eq_foldl,
      Line.significant_append h.getLast?_eq h.open_end, hlines,
      Reading.finish_foldl_step_append _ hopened]
  · have hmoved : List.Forall₂
        (Line.Matches fun location moved =>
          moved = location.shift (Line.ofText text).length text.utf8ByteSize)
        (Line.significant other) lines := by
      rw [← hlines, List.forall₂_map_right_iff, List.forall₂_same]
      exact fun line _ => ⟨rfl, rfl⟩
    have hrun := Reading.finish_foldl_step_append [] hopened
    rw [List.nil_append, List.foldl_nil] at hrun
    have hstart : Reading.finish {} = {} := rfl
    rw [hstart] at hrun
    rw [Definitions.untraced_ofText_eq_foldl, ← hrun]
    exact ((Reading.matches_empty _).foldl_step hmoved).finish

theorem glyphs_append (h : Joinable text other) :
    (Definitions.ofText (text ++ other)).glyphs.toList =
      (Definitions.ofText other).glyphs.toList.foldl Glyph.place
        (Definitions.ofText text).glyphs.toList := by
  obtain ⟨blocks, hjoined, hmatch⟩ := h.untraced_ofText_append
  have hother : (Definitions.ofText other).glyphs.toList = Block.merge blocks := by
    rw [← Definitions.glyphs_foldl_addBlock [] blocks, Definitions.report_nil, ← hmatch.glyphs]
    rfl
  have hglyphs := congrArg (fun found : Definitions => found.glyphs.toList) hjoined
  rw [Definitions.glyphs_foldl_addBlock_eq_foldl_place] at hglyphs
  rw [hother, Block.foldl_place_merge]
  exact hglyphs

theorem diagnostics_append (h : Joinable text other) :
    (Definitions.ofText (text ++ other)).diagnostics.toList =
      (Definitions.ofText text).diagnostics.toList ++
        (Definitions.ofText other).diagnostics.toList.map
          (Diagnostic.shift (Line.ofText text).length text.utf8ByteSize) := by
  obtain ⟨blocks, hjoined, hmatch⟩ := h.untraced_ofText_append
  have hother := hmatch.diagnostics
  rw [Definitions.diagnostics_foldl_addBlock] at hother
  have hproblems : blocks.flatMap Block.problems =
      (Definitions.ofText other).diagnostics.toList.map
        (Diagnostic.shift (Line.ofText text).length text.utf8ByteSize) :=
    Diagnostic.eq_map_shift hother
  have hdiagnostics := congrArg (fun found : Definitions => found.diagnostics.toList) hjoined
  rw [Definitions.diagnostics_foldl_addBlock, hproblems] at hdiagnostics
  exact hdiagnostics

end Joinable

/-! ## Fonts of joined texts -/

namespace Compilation

/-- Where no glyph of the second text takes the place of one of the first, its data comes behind the
data of the first. -/
theorem ofDefinitions_append {found next joined : Definitions}
    (h : joined.glyphs.toList = found.glyphs.toList ++ next.glyphs.toList) :
    (ofDefinitions joined).payload =
        (ofDefinitions found).payload ++ (ofDefinitions next).payload ∧
      (ofDefinitions joined).layout =
        { entries := (ofDefinitions found).layout.entries ++
            (ofDefinitions next).layout.entries.map
              (Layout.Entry.shift found.glyphs.size (ofDefinitions found).totalSize)
          totalSize := (ofDefinitions found).totalSize + (ofDefinitions next).totalSize } := by
  have hsizes : encodedSizes joined.glyphs.toList =
      encodedSizes found.glyphs.toList ++ encodedSizes next.glyphs.toList := by
    rw [encodedSizes, h, List.map_append, encodedSizes, encodedSizes]
  have htotal (definitions : Definitions) : (ofDefinitions definitions).totalSize =
      Layout.span (encodedSizes definitions.glyphs.toList) := by
    rw [totalSize, layout_ofDefinitions, Layout.totalSize_ofSizes]
  have hcount : (encodedSizes found.glyphs.toList).length = found.glyphs.size := by
    rw [encodedSizes, List.length_map, Array.length_toList]
  constructor
  · rw [payload_ofDefinitions, payload_ofDefinitions, payload_ofDefinitions, encodedBytes, h,
      List.flatMap_append, encodedBytes, encodedBytes]
  · rw [htotal, htotal, layout_ofDefinitions, layout_ofDefinitions, layout_ofDefinitions, hsizes,
      Layout.ofSizes_append, hcount]

/-- A joined text defines the glyphs of the first text, with those of the second put in place one by
one, and has the diagnostics of both, the second ones moved on by the lines and bytes of the first
text. Where no identifier stands in both, its data and its layout are those of the first text
followed by those of the second, moved on by the number of glyphs and the data of the first. -/
theorem ofText_of_joinable {text other : String} (h : Joinable text other) :
    let found := Definitions.ofText text
    let next := Definitions.ofText other
    let joined := Definitions.ofText (text ++ other)
    joined.glyphs.toList = next.glyphs.toList.foldl Glyph.place found.glyphs.toList ∧
      joined.diagnostics.toList =
        found.diagnostics.toList ++
          next.diagnostics.toList.map
            (Diagnostic.shift (Line.ofText text).length text.utf8ByteSize) ∧
      ((∀ glyph ∈ found.glyphs, ∀ other ∈ next.glyphs, glyph.id ≠ other.id) →
        (ofText (text ++ other)).payload = (ofText text).payload ++ (ofText other).payload ∧
          (ofText (text ++ other)).layout =
            { entries := (ofText text).layout.entries ++
                (ofText other).layout.entries.map
                  (Layout.Entry.shift found.glyphs.size (ofText text).totalSize)
              totalSize := (ofText text).totalSize + (ofText other).totalSize }) := by
  intro found next joined
  refine ⟨h.glyphs_append, h.diagnostics_append, ?_⟩
  intro hdisjoint
  have hnodup : (next.glyphs.toList.map (·.id)).Nodup := Definitions.nodup_ids_glyphs other
  have hne : ∀ glyph ∈ found.glyphs.toList, ∀ other ∈ next.glyphs.toList, glyph.id ≠ other.id := by
    intro glyph hglyph other hother
    exact hdisjoint glyph (Array.mem_toList_iff.mp hglyph) other (Array.mem_toList_iff.mp hother)
  have hjoined : joined.glyphs.toList = found.glyphs.toList ++ next.glyphs.toList := by
    rw [← Glyph.foldl_place_of_disjoint hnodup hne]
    exact h.glyphs_append
  exact ofDefinitions_append hjoined

/-- The last glyph of the first text is still open, the second text begins with a comment and goes
on behind its `END` line, and both have problems. -/
theorem ofText_of_joinable_open_glyph :
    let text := "X\nID \u00e5\nDIM 2 8\nX -\nID b\n"
    let other := "# c\r\n\nID c\nDIM 1 9\n-\nX\nEND\nID \u00e5\n"
    Joinable text other ∧
      (∀ glyph ∈ (Definitions.ofText text).glyphs, ∀ next ∈ (Definitions.ofText other).glyphs,
        glyph.id ≠ next.id) ∧
      (ofText (text ++ other)).payload = (ofText text).payload ++ (ofText other).payload := by
  intro text other
  have hfirst : (Line.ofText other).find? Line.isSignificant =
      some { text := "ID c", location := { line := 3, start := 6, stop := 10 } } := by
    decide +kernel
  have hjoinable : Joinable text other := by
    refine ⟨Or.inr (by decide +kernel), by decide +kernel, ?_⟩
    intro line hline
    rw [hfirst] at hline
    obtain rfl := Option.some.inj hline
    exact ⟨"c", [], by decide +kernel⟩
  have hdisjoint : ∀ glyph ∈ (Definitions.ofText text).glyphs,
      ∀ next ∈ (Definitions.ofText other).glyphs, glyph.id ≠ next.id := by
    decide +kernel
  exact ⟨hjoinable, hdisjoint, ((ofText_of_joinable hjoinable).2.2 hdisjoint).1⟩

end Compilation

end BitFont
