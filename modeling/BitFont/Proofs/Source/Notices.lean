import BitFont.Source
import BitFont.Proofs.Definitions.Reading

/-!
# What is said of a text

While a text is read, lines and redefinitions are noted and nothing else: one step keeps this
(`Reading.IsPlain.apply`), and so does the whole run (`Definitions.isPlain_ofText`). Compiling adds
the places of the glyphs and a summary. So what is said about the limits of a generated source is
said where it is generated, and about nothing but this font (`Source.mem_notices_generate`).
-/

namespace BitFont

namespace Notice

/-- Said while a text is read. -/
def isReading : Notice → Bool
  | lineRead .. | redefined .. => true
  | _ => false

/-- Said about what does not fit into a generated source. -/
def isLimit : Notice → Bool
  | noGlyphs | notAnIdentifier .. | offsetTooLarge .. | sizeTooLarge .. => true
  | _ => false

theorem isLimit_eq_false_of_isReading {notice : Notice} (h : notice.isReading = true) :
    notice.isLimit = false := by
  cases notice <;> first | rfl | contradiction

end Notice

/-! ## Reading -/

/-- Nothing but the reading itself was noted. -/
def Definitions.IsPlain (found : Definitions) : Prop :=
  ∀ notice ∈ found.notices, notice.isReading = true

namespace Definitions.IsPlain

variable {found : Definitions}

theorem push (h : found.IsPlain) {notice : Notice} (hnotice : notice.isReading = true) :
    ∀ other ∈ found.notices.push notice, other.isReading = true := by
  intro other hother
  rcases Array.mem_push.mp hother with hold | rfl
  · exact h other hold
  · exact hnotice

theorem define (h : found.IsPlain) (glyph : Glyph) : (found.define glyph).IsPlain := by
  unfold Definitions.define
  split
  · exact h.push rfl
  · exact h

theorem close (h : found.IsPlain) (draft : Option Draft) : (found.close draft).IsPlain := by
  cases draft with
  | none => exact h
  | some draft =>
    have hreport : (found.report draft.problems).IsPlain := h
    exact hreport.define draft.glyph

end Definitions.IsPlain

namespace Reading

theorem isPlain_apply {reading : Reading} (h : reading.found.IsPlain) (location : Location)
    (statement : Statement) : (reading.apply location statement).found.IsPlain := by
  obtain ⟨draft, found⟩ := reading
  cases statement with
  | skip => exact h
  | finish => exact h
  | glyph id => exact Definitions.IsPlain.close h draft
  | dimensions width height => cases draft <;> exact h
  | row bits => cases draft <;> exact h
  | malformed fault => exact h

theorem isPlain_readLines {reading : Reading} (h : reading.found.IsPlain) (lines : List Line) :
    (readLines reading lines).found.IsPlain := by
  refine readLines_induction (motive := fun after => after.found.IsPlain) ?_ ?_ h lines
  · exact fun _ _ _ hbefore => Definitions.IsPlain.push hbefore rfl
  · exact fun _ location _ hbefore => isPlain_apply hbefore location _

end Reading

theorem Definitions.isPlain_ofText (text : String) : (ofText text).IsPlain := by
  have hempty : ({} : Reading).found.IsPlain := by
    intro notice hnotice
    exact absurd hnotice (Array.not_mem_empty notice)
  exact (Reading.isPlain_readLines hempty (Line.ofText text)).close _

/-! ## Compiling and generating -/

theorem Compilation.isLimit_eq_false_of_mem_notices {text : String} {notice : Notice}
    (h : notice ∈ (ofText text).notices) : notice.isLimit = false := by
  rw [notices, List.mem_append, List.mem_append, List.mem_map, List.mem_singleton] at h
  rcases h with (hreading | ⟨glyph, -, rfl⟩) | rfl
  · have hplain := Definitions.isPlain_ofText text notice (Array.mem_toList_iff.mp hreading)
    exact Notice.isLimit_eq_false_of_isReading hplain
  · rfl
  · rfl

namespace Source

theorem notices_generate (source : Source) (artifact : Artifact) (naming : Naming) :
    (source.generate artifact { naming }).notices =
      (Compilation.ofText source.text).notices ++
        (Compilation.ofText source.text).limits naming := by
  have hnotices (notices : List Notice) :
      (notices.map Remark.notice).filterMap Remark.notice? = notices := by
    rw [List.filterMap_map]
    exact List.filterMap_some
  have hreports (reports : List Report) :
      (reports.map Remark.report).filterMap Remark.notice? = [] := by
    rw [List.filterMap_map]
    exact List.filterMap_eq_nil_iff.mpr fun _ _ => rfl
  have hremarks : (source.generate artifact { naming }).remarks =
      (Compilation.ofText source.text).notices.map .notice ++
        (source.reports (Compilation.ofText source.text) .warning).map .report ++
        ((Compilation.ofText source.text).limits naming).map .notice := rfl
  rw [Outcome.notices, hremarks, List.filterMap_append, List.filterMap_append, hnotices, hreports,
    hnotices, List.append_nil]

theorem mem_notices_generate {source : Source} {artifact : Artifact} {naming : Naming}
    {notice : Notice} (h : notice.isLimit = true) :
    notice ∈ (source.generate artifact { naming }).notices ↔
      notice ∈ (Compilation.ofText source.text).limits naming := by
  rw [notices_generate, List.mem_append]
  constructor
  · rintro (hcompiled | hlimit)
    · rw [Compilation.isLimit_eq_false_of_mem_notices hcompiled] at h
      contradiction
    · exact hlimit
  · exact .inr

end Source

end BitFont
