import BitFont.Proofs.Artifact.Names
import BitFont.Proofs.Definitions.Measures

/-!
# Clear diagnostics

Diagnostics repeat words of the text: identifiers, and what stands in the place of a number. A word
holds no white space, whatever else it holds, and the wording around it has plain spaces only. This is
followed from the words of a line (`Statement.isClear_ofText`) through the reading state, where
identifiers wait until their glyph is closed (`Reading.isClear_apply`), to every diagnostic of a text
(`Definitions.isClear_ofText`).
-/

namespace BitFont

/-! ## Lines of text -/

/-- Text that stays on one line wherever lines are broken: plain spaces are its only white space. -/
abbrev Text.IsLine (text : String) : Prop := Text.Only (fun c => c == ' ' || !Text.isBlank c) text

namespace Text

theorem IsWord.isLine {text : String} (h : IsWord text) : IsLine text := by
  intro c hc
  have hblank : (!isBlank c) = true := h.noBlanks c hc
  show (c == ' ' || !isBlank c) = true
  rw [hblank, Bool.or_true]

theorem isLine_toString (n : Nat) : IsLine (toString n) := (isWord_toString n).isLine

end Text

open Text

/-! ## Wording -/

theorem Measure.isLine_name (measure : Measure) : IsLine measure.name := by
  cases measure <;> decide

theorem Numeral.isLine_complaint (word : String) : IsLine (complaint word) := by
  unfold complaint
  split <;> decide

/-- A reason repeats at most a word. -/
theorem Measure.isLine_reason (measure : Measure) {word? : Option String}
    (h : ∀ word ∈ word?, IsWord word) : IsLine (measure.reason word?) := by
  have hname := measure.isLine_name
  have hmissing : IsLine "missing " := by decide
  have hpositive : IsLine " must be positive" := by decide
  have hinvalid : IsLine "invalid " := by decide
  have hopen : IsLine " '" := by decide
  have hclose : IsLine "': " := by decide
  cases word? with
  | none => exact hmissing.append hname
  | some word =>
    have hword : IsLine word := (h word rfl).isLine
    unfold reason
    dsimp only
    split
    · exact hname.append hpositive
    · exact ((((hinvalid.append hname).append hopen).append hword).append hclose).append
        (Numeral.isLine_complaint word)

/-- Only a malformed directive has words of its own. -/
theorem Diagnostic.Kind.isLine_message {kind : Kind}
    (h : ∀ directive reason, kind = .malformedDirective directive reason →
      IsLine directive ∧ IsLine reason) : IsLine kind.message := by
  cases kind with
  | rowCountMismatch expected found =>
    have hfront : IsLine "wrong number of lines: expected " := by decide
    have hfound : IsLine ", found " := by decide
    exact ((hfront.append (isLine_toString expected)).append hfound).append (isLine_toString found)
  | invalidHeight height =>
    have hfront : IsLine "height must be a multiple of 8, found " := by decide
    exact hfront.append (isLine_toString height)
  | rowBeforeGlyph => decide
  | dimensionsBeforeGlyph => decide
  | missingDimensions => decide
  | shortRow row expected found =>
    have hrow : IsLine "row " := by decide
    have hhas : IsLine " has " := by decide
    have hpixels : IsLine " pixels, expected " := by decide
    exact ((((hrow.append (isLine_toString row)).append hhas).append
      (isLine_toString found)).append hpixels).append (isLine_toString expected)
  | malformedDirective directive reason =>
    obtain ⟨hdirective, hreason⟩ := h directive reason rfl
    have hfront : IsLine "malformed '" := by decide
    have hback : IsLine "' directive: " := by decide
    exact ((hfront.append hdirective).append hback).append hreason

/-- A diagnostic of an identifier, if any, and a wording of one line. -/
structure Diagnostic.IsClear (diagnostic : Diagnostic) : Prop where
  glyph : ∀ id ∈ diagnostic.glyph, IsWord id
  kind : IsLine diagnostic.kind.message

theorem Diagnostic.IsClear.isLine_message {diagnostic : Diagnostic} (h : diagnostic.IsClear) :
    IsLine diagnostic.message := by
  have hnumber : IsLine s!" (line {diagnostic.location.line})" := by
    have hfront : IsLine " (line " := by decide
    have hback : IsLine ")" := by decide
    exact (hfront.append (isLine_toString _)).append hback
  obtain ⟨glyph, location, kind⟩ := diagnostic
  cases glyph with
  | none =>
    have hnone : IsLine "" := by decide
    exact (hnone.append h.kind).append hnumber
  | some id =>
    have hcolon : IsLine ": " := by decide
    have hid : IsLine id := (h.glyph id rfl).isLine
    exact ((hid.append hcolon).append h.kind).append hnumber

/-! ## Statements -/

/-- A statement whose identifier is a word, and whose fault is worded in one line. -/
def Statement.IsClear : Statement → Prop
  | .glyph id => IsWord id
  | .malformed fault => IsLine fault.kind.message
  | _ => True

namespace Statement

theorem isClear_ofMeasures {words : List String} (h : ∀ word ∈ words, IsWord word) :
    (ofMeasures words).IsClear := by
  rcases ofMeasures_cases words with
    ⟨first, second, rest, width, height, -, -, -, hsize⟩ |
      ⟨measure, word?, fault, hfailing, hfault, hkind⟩
  · rw [hsize]
    trivial
  · have hword : ∀ word ∈ word?, IsWord word := by
      intro word hmem
      cases hfailing with
      | width _ => exact h word (List.mem_of_getElem? hmem)
      | height _ _ _ => exact h word (List.mem_of_getElem? hmem)
    rw [hfault, IsClear, hkind]
    apply Diagnostic.Kind.isLine_message
    rintro directive reason hsame
    obtain ⟨rfl, rfl⟩ := Diagnostic.Kind.malformedDirective.inj hsame
    exact ⟨by decide, measure.isLine_reason hword⟩

theorem isClear_ofText (text : String) : (ofText text).IsClear := by
  have hwords : ∀ word ∈ words text, IsWord word := fun _ hword => isWord_of_mem_words hword
  have hsays := says_ofWords (words text)
  have hmeasures (rest : List String) (h : words text = "DIM" :: rest) :
      (ofText text).IsClear := by
    have htext : ofText text = ofMeasures rest := by rw [ofText, h, ofWords_dim]
    rw [htext]
    apply isClear_ofMeasures
    intro word hword
    exact hwords word (h ▸ List.mem_cons_of_mem _ hword)
  rw [ofText] at hmeasures ⊢
  generalize words text = line at hwords hsays hmeasures
  generalize ofWords line = statement at hsays hmeasures
  cases hsays with
  | noIdentifier => exact (by decide : IsLine DirectiveFault.missingIdentifier.kind.message)
  | glyph id rest => exact hwords id (by simp)
  | badMeasures fault rest => exact hmeasures rest rfl
  | _ => trivial

end Statement

/-! ## Reading -/

def Definitions.IsClear (found : Definitions) : Prop :=
  ∀ diagnostic ∈ found.diagnostics, diagnostic.IsClear

namespace Draft

variable {draft : Draft}

theorem isClear_problem (h : IsWord draft.id) (location : Location) {kind : Diagnostic.Kind}
    (hkind : IsLine kind.message) : (draft.problem location kind).IsClear where
  glyph := by
    intro id hid
    rwa [← Option.some.inj hid]
  kind := hkind

theorem isClear_of_mem_shortRows (h : IsWord draft.id) {width : Nat} {diagnostic : Diagnostic}
    (hmem : diagnostic ∈ draft.shortRows width) : diagnostic.IsClear := by
  obtain ⟨⟨row, index⟩, -, hrow⟩ := List.mem_filterMap.mp hmem
  dsimp only at hrow
  split at hrow
  · obtain rfl := Option.some.inj hrow
    exact isClear_problem h _ (Diagnostic.Kind.isLine_message (by simp))
  · contradiction

theorem isClear_of_mem_problems (h : IsWord draft.id) {diagnostic : Diagnostic}
    (hmem : diagnostic ∈ draft.problems) : diagnostic.IsClear := by
  unfold problems at hmem
  split at hmem
  · rw [List.mem_singleton.mp hmem]
    exact isClear_problem h _ (Diagnostic.Kind.isLine_message (by simp))
  · rcases List.mem_append.mp hmem with hshort | hcount
    · exact isClear_of_mem_shortRows h hshort
    · unfold rowCount at hcount
      split at hcount
      · simp at hcount
      · rw [List.mem_singleton.mp hcount]
        exact isClear_problem h _ (Diagnostic.Kind.isLine_message (by simp))

end Draft

namespace Definitions.IsClear

variable {found : Definitions}

theorem report (h : found.IsClear) {problems : List Diagnostic}
    (hproblems : ∀ diagnostic ∈ problems, diagnostic.IsClear) : (found.report problems).IsClear := by
  intro diagnostic hmem
  rw [Definitions.report, ← Array.mem_toList_iff, Array.toList_appendList, List.mem_append] at hmem
  rcases hmem with hold | hnew
  · exact h diagnostic (Array.mem_toList_iff.mp hold)
  · exact hproblems diagnostic hnew

theorem define (h : found.IsClear) (glyph : Glyph) : (found.define glyph).IsClear := by
  unfold Definitions.define
  split <;> exact h

theorem close (h : found.IsClear) {draft : Option Draft}
    (hdraft : ∀ opened ∈ draft, IsWord opened.id) : (found.close draft).IsClear := by
  cases draft with
  | none => exact h
  | some draft =>
    exact (h.report fun _ => Draft.isClear_of_mem_problems (hdraft draft rfl)).define draft.glyph

end Definitions.IsClear

/-- The open glyph has a word for its identifier, and what was reported is clear. -/
structure Reading.IsClear (reading : Reading) : Prop where
  draft : ∀ draft ∈ reading.draft, IsWord draft.id
  found : reading.found.IsClear

namespace Reading

/-- A problem of a single line belongs to the open glyph, or to none. -/
theorem IsClear.report_one {draft : Option Draft} {found : Definitions}
    (h : IsClear ⟨draft, found⟩) (location : Location) {kind : Diagnostic.Kind}
    (hkind : IsLine kind.message) :
    (found.report [{ glyph := draft.map (·.id), location, kind }]).IsClear := by
  refine h.found.report ?_
  intro diagnostic hmem
  obtain rfl := List.mem_singleton.mp hmem
  refine ⟨?_, hkind⟩
  intro id hid
  obtain ⟨draft, hdraft, rfl⟩ := Option.map_eq_some_iff.mp hid
  exact h.draft draft hdraft

theorem isClear_apply {reading : Reading} (h : reading.IsClear) (location : Location)
    {statement : Statement} (hstatement : statement.IsClear) :
    (reading.apply location statement).IsClear := by
  obtain ⟨draft, found⟩ := reading
  cases statement with
  | skip => exact h
  | finish => exact h
  | glyph id =>
    refine ⟨?_, h.found.close h.draft⟩
    intro draft hdraft
    rw [← Option.some.inj hdraft]
    exact hstatement
  | dimensions width height =>
    have hheight : IsLine (Diagnostic.Kind.invalidHeight height).message :=
      Diagnostic.Kind.isLine_message (by simp)
    cases draft with
    | none => exact ⟨h.draft, h.report_one location (by decide)⟩
    | some draft =>
      have hdraft : IsWord draft.id := h.draft draft rfl
      refine ⟨?_, ?_⟩
      · intro resized hresized
        rw [← Option.some.inj hresized]
        exact hdraft
      · refine h.found.report ?_
        split
        · simp
        · intro diagnostic hmem
          rw [List.mem_singleton.mp hmem]
          exact Draft.isClear_problem hdraft location hheight
  | row bits =>
    cases draft with
    | none => exact ⟨h.draft, h.report_one location (by decide)⟩
    | some draft =>
      refine ⟨?_, h.found⟩
      intro longer hlonger
      rw [← Option.some.inj hlonger]
      exact h.draft draft rfl
  | malformed fault => exact ⟨h.draft, h.report_one location hstatement⟩

theorem isClear_readLines {reading : Reading} (h : reading.IsClear) (lines : List Line) :
    (readLines reading lines).IsClear := by
  refine readLines_induction (motive := IsClear) ?_ ?_ h lines
  · exact fun _ _ _ hbefore => ⟨hbefore.draft, hbefore.found⟩
  · exact fun _ location text hbefore =>
      isClear_apply hbefore location (Statement.isClear_ofText text)

end Reading

theorem Definitions.isClear_ofText (text : String) : (ofText text).IsClear := by
  have hempty : Reading.IsClear {} := by
    refine ⟨by simp, ?_⟩
    intro diagnostic hmem
    exact absurd hmem (Array.not_mem_empty diagnostic)
  have hread := Reading.isClear_readLines hempty (Line.ofText text)
  exact hread.found.close hread.draft

end BitFont
