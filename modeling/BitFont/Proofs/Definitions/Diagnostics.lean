import BitFont.Proofs.Definitions.Reading
import Mathlib.Data.List.Basic

/-!
# The diagnostics of a text

Reading reports exactly the problems of the outline, in their order: those of the prelude, and block
by block the slips of single lines before the mismatches of the whole block. A text has no
diagnostics if and only if its outline is sound.
-/

namespace BitFont

/-! ## Reported problems -/

namespace Block

theorem shortRows_draft (block : Block) (width : Nat) :
    block.draft.shortRows width = block.shortRows width := by
  rw [Draft.shortRows, shortRows, rows_draft, List.zipIdx_map, List.filterMap_map]
  apply List.filterMap_congr
  rintro ⟨line, index⟩ -
  simp [Line.draftRow, draft, Draft.extend, Draft.problem, problem]

/-- Closing a finished draft reports the mismatches of its block. -/
theorem problems_draft (block : Block) : block.draft.problems = block.mismatches := by
  have hsize : block.draft.rows.size = block.rowLines.length := by
    rw [rows_draft, List.size_toArray, List.length_map]
  rw [Draft.problems, mismatches, dimensions_draft]
  cases block.dimensions with
  | none => rfl
  | some dimensions =>
    obtain ⟨width, height⟩ := dimensions
    dsimp only
    rw [shortRows_draft, Draft.rowCount, hsize]
    rfl

end Block

namespace Definitions

theorem diagnostics_define (found : Definitions) (glyph : Glyph) :
    (found.define glyph).diagnostics = found.diagnostics := by
  unfold define
  split <;> rfl

theorem diagnostics_addBlock (found : Definitions) (block : Block) :
    (found.addBlock block).diagnostics.toList = found.diagnostics.toList ++ block.problems := by
  rw [addBlock, close, diagnostics_define, Block.problems_draft, report_report, report,
    Array.toList_appendList, Block.problems]

theorem diagnostics_foldl_addBlock (found : Definitions) (blocks : List Block) :
    (blocks.foldl addBlock found).diagnostics.toList =
      found.diagnostics.toList ++ blocks.flatMap Block.problems := by
  induction blocks generalizing found with
  | nil => rw [List.foldl_nil, List.flatMap_nil, List.append_nil]
  | cons block rest ih =>
    rw [List.foldl_cons, ih, diagnostics_addBlock, List.append_assoc, List.flatMap_cons]

end Definitions

/-! ## Texts without problems -/

/-- A block whose lines are understood and whose rows match its size. -/
structure Block.Sound (block : Block) : Prop where
  understood : ∀ line ∈ block.body, ∀ fault, line.statement ≠ .malformed fault
  whole_bands : ∀ line ∈ block.body, ∀ width height, line.statement = .dimensions width height →
    height % 8 = 0
  matching : ∃ width height, block.dimensions = some (width, height) ∧
    (∀ line ∈ block.rowLines, width ≤ line.words.length) ∧ block.rowLines.length = height

/-- A text of sound blocks with nothing but blank lines and comments in front of them. -/
structure Outline.Sound (outline : Outline) : Prop where
  prelude : ∀ line ∈ outline.prelude, line.statement = .skip
  blocks : ∀ block ∈ outline.blocks, block.Sound

theorem Line.slip?_eq_none_iff (line : Line) :
    line.slip? = none ↔ (∀ fault, line.statement ≠ .malformed fault) ∧
      ∀ width height, line.statement = .dimensions width height → height % 8 = 0 := by
  rw [slip?]
  cases line.statement with
  | dimensions width height =>
    constructor
    · intro h
      refine ⟨by simp, ?_⟩
      rintro width' height' heq
      obtain ⟨rfl, rfl⟩ := Statement.dimensions.inj heq
      by_contra hheight
      simp [hheight] at h
    · rintro ⟨-, h⟩
      simp [h width height rfl]
  | _ => simp

/-- The lines of a prelude neither open a block nor end the text, so the sound ones are those that
say nothing. -/
theorem Line.stray?_eq_none_iff {line : Line} (hopened : line.opened? = none)
    (hend : line.statement ≠ .finish) : line.stray? = none ↔ line.statement = .skip := by
  rw [stray?]
  cases hline : line.statement with
  | glyph id => simp [opened?, hline] at hopened
  | finish => contradiction
  | _ => simp

namespace Block

theorem slips_eq_nil_iff (block : Block) :
    block.slips = [] ↔ (∀ line ∈ block.body, ∀ fault, line.statement ≠ .malformed fault) ∧
      ∀ line ∈ block.body, ∀ width height, line.statement = .dimensions width height →
        height % 8 = 0 := by
  rw [slips, List.filterMap_eq_nil_iff, ← forall₂_and]
  simp only [Option.map_eq_none_iff, Line.slip?_eq_none_iff]

theorem shortRows_eq_nil_iff (block : Block) (width : Nat) :
    block.shortRows width = [] ↔ ∀ line ∈ block.rowLines, width ≤ line.words.length := by
  rw [shortRows, List.filterMap_eq_nil_iff]
  constructor
  · intro h line hline
    obtain ⟨index, hindex⟩ := List.getElem?_of_mem hline
    have hshort := h (line, index) (List.mem_zipIdx_iff_getElem?.mpr hindex)
    by_contra hlt
    simp [Nat.lt_of_not_le hlt] at hshort
  · rintro h ⟨line, index⟩ hmem
    have hline := List.mem_of_getElem? (List.mem_zipIdx_iff_getElem?.mp hmem)
    simp [Nat.not_lt.mpr (h line hline)]

theorem mismatches_eq_nil_iff (block : Block) :
    block.mismatches = [] ↔ ∃ width height, block.dimensions = some (width, height) ∧
      (∀ line ∈ block.rowLines, width ≤ line.words.length) ∧ block.rowLines.length = height := by
  rw [mismatches]
  cases block.dimensions with
  | none => simp
  | some dimensions =>
    obtain ⟨width, height⟩ := dimensions
    by_cases hcount : block.rowLines.length = height
    · simp [shortRows_eq_nil_iff, hcount]
    · have hne : height ≠ block.rowLines.length := fun heq => hcount heq.symm
      simp [hcount, hne]

theorem problems_eq_nil_iff (block : Block) : block.problems = [] ↔ block.Sound := by
  rw [problems, List.append_eq_nil_iff, slips_eq_nil_iff, mismatches_eq_nil_iff]
  exact ⟨fun h => ⟨h.1.1, h.1.2, h.2⟩, fun h => ⟨⟨h.understood, h.whole_bands⟩, h.matching⟩⟩

end Block

theorem Outline.problems_ofText_eq_nil_iff (text : String) :
    (ofText text).problems = [] ↔ (ofText text).Sound := by
  have hprelude : ∀ line ∈ (ofText text).prelude,
      line.opened? = none ∧ line.statement ≠ .finish := by
    intro line hline
    have hread := List.takeWhile_subset _ hline
    refine ⟨Block.opened?_eq_none_of_mem_takeWhile line hline, ?_⟩
    simpa using List.all_eq_true.mp List.all_takeWhile line hread
  have hstrays : (ofText text).strays = [] ↔
      ∀ line ∈ (ofText text).prelude, line.statement = .skip := by
    rw [strays, List.filterMap_eq_nil_iff]
    apply forall₂_congr
    intro line hline
    obtain ⟨hopened, hend⟩ := hprelude line hline
    rw [Option.map_eq_none_iff, Line.stray?_eq_none_iff hopened hend]
  have hblocks : (ofText text).blocks.flatMap Block.problems = [] ↔
      ∀ block ∈ (ofText text).blocks, block.Sound := by
    rw [List.flatMap_eq_nil_iff]
    exact forall₂_congr fun block _ => block.problems_eq_nil_iff
  rw [problems, List.append_eq_nil_iff, hstrays, hblocks]
  exact ⟨fun h => ⟨h.1, h.2⟩, fun h => ⟨h.prelude, h.blocks⟩⟩

/-- The diagnostics of a text are the problems of its outline, each once and in this order, also
those of blocks whose glyph is defined again. There are none exactly if the outline is sound. -/
theorem Definitions.diagnostics_ofText (text : String) :
    (Definitions.ofText text).diagnostics.toList = (Outline.ofText text).problems ∧
      ((Definitions.ofText text).diagnostics.toList = [] ↔ (Outline.ofText text).Sound) := by
  have h : (Definitions.ofText text).diagnostics.toList = (Outline.ofText text).problems := by
    have huntraced := congrArg Definitions.diagnostics (untraced_ofText text)
    rw [untraced] at huntraced
    rw [huntraced, diagnostics_foldl_addBlock, report, Array.toList_appendList, Outline.problems]
    rfl
  rw [h]
  exact ⟨rfl, Outline.problems_ofText_eq_nil_iff text⟩

end BitFont
