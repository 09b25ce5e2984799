import BitFont.Proofs.Definitions.Outline

/-!
# Reading follows the outline

The reading state is followed through a text block by block. Behind an `ID` line the open draft is
what the lines of the block make of it (`foldl_step_body`); the next `ID` line, the `END` line or
the end of the text closes it. So a text is read as its prelude and then its blocks, one behind the
other (`untraced_ofText`).
-/

namespace BitFont

theorem appendList_append {α : Type} (items : Array α) (list others : List α) :
    items ++ list ++ others = items ++ (list ++ others) := by
  apply Array.ext'
  simp

theorem filterMap_cons_toList {α β : Type} (f : α → Option β) (item : α) (rest : List α) :
    (item :: rest).filterMap f = (f item).toList ++ rest.filterMap f := by
  rw [List.filterMap_cons]
  cases f item <;> rfl

/-! ## Notices of single lines

Every line leaves a notice, also the `END` line, which does nothing else. They are left out here. -/

namespace Definitions

/-- The definitions without the notices about single lines. -/
def untraced (found : Definitions) : Definitions :=
  { found with notices := found.notices.filter (·.level ≠ .trace) }

@[simp] theorem report_nil (found : Definitions) : found.report [] = found := by
  cases found
  simp [report]

@[simp] theorem report_report (found : Definitions) (problems others : List Diagnostic) :
    (found.report problems).report others = found.report (problems ++ others) := by
  simp [report, appendList_append]

theorem untraced_report (found : Definitions) (problems : List Diagnostic) :
    (found.report problems).untraced = found.untraced.report problems := rfl

theorem untraced_define (found : Definitions) (glyph : Glyph) :
    (found.define glyph).untraced = found.untraced.define glyph := by
  unfold define
  by_cases hold : found.glyphs.any (·.id == glyph.id)
  · simp [untraced, hold, Notice.level]
  · simp [untraced, hold]

theorem untraced_close (found : Definitions) (draft : Option Draft) :
    (found.close draft).untraced = found.untraced.close draft := by
  cases draft with
  | none => rfl
  | some draft => rw [close, close, untraced_define, untraced_report]

theorem untraced_note_lineRead (found : Definitions) (line : Nat) (statement : Statement) :
    (found.note (.lineRead line statement)).untraced = found.untraced := by
  simp [note, untraced, Notice.level]

end Definitions

namespace Reading

/-- The state without the notices about single lines. -/
def untraced (reading : Reading) : Reading := ⟨reading.draft, reading.found.untraced⟩

/-- What one line does. -/
def step (reading : Reading) (line : Line) : Reading := reading.apply line.location line.statement

theorem untraced_note (reading : Reading) (line : Line) (statement : Statement) :
    (reading.note line statement).untraced = reading.untraced := by
  rw [untraced, note, Definitions.untraced_note_lineRead, untraced]

theorem untraced_apply (reading : Reading) (location : Location) (statement : Statement) :
    (reading.apply location statement).untraced = reading.untraced.apply location statement := by
  obtain ⟨draft, found⟩ := reading
  cases statement with
  | skip => rfl
  | glyph id => simp [apply, untraced, Definitions.untraced_close]
  | dimensions width height => cases draft <;> rfl
  | finish => rfl
  | row bits => cases draft <;> rfl
  | malformed fault => rfl

/-- What neither noting a line nor applying a statement ends holds after any lines. -/
theorem readLines_induction {motive : Reading → Prop}
    (hnote : ∀ reading line statement, motive reading → motive (reading.note line statement))
    (happly : ∀ reading location text, motive reading →
      motive (reading.apply location (Statement.ofText text)))
    {reading : Reading} (h : motive reading) (lines : List Line) :
    motive (readLines reading lines) := by
  induction lines generalizing reading with
  | nil => exact h
  | cons line rest ih =>
    have hnoted := hnote reading line (Statement.ofText line.text) h
    rw [readLines]
    split
    · exact hnoted
    · exact ih (happly _ line.location line.text hnoted)

/-- Reading stops at the first `END` line, and up to it every line does one step. -/
theorem untraced_readLines (reading : Reading) (lines : List Line) :
    (readLines reading lines).untraced = (Line.beforeEnd lines).foldl step reading.untraced := by
  induction lines generalizing reading with
  | nil => rfl
  | cons line rest ih =>
    rw [readLines, Line.beforeEnd]
    by_cases hend : line.statement = .finish
    · have hfinish : Statement.ofText line.text = .finish := hend
      rw [if_pos hfinish, untraced_note, List.takeWhile_cons_of_neg (by simp [hend]),
        List.foldl_nil]
    · have hfinish : Statement.ofText line.text ≠ .finish := hend
      rw [if_neg hfinish, ih, untraced_apply, untraced_note,
        List.takeWhile_cons_of_pos (by simp [hend]), List.foldl_cons]
      rfl

end Reading

/-! ## Blocks -/

/-- The pixels of a row line are its words. -/
theorem Statement.eq_map_of_row {text : String} {bits : List Bool}
    (h : Statement.ofText text = .row bits) : bits = (Text.words text).map pixelOfWord := by
  rw [ofText] at h
  cases hwords : Text.words text with
  | nil =>
    rw [hwords] at h
    contradiction
  | cons first rest =>
    rw [hwords, ofWords.eq_def] at h
    dsimp only at h
    split at h
    · contradiction
    · split at h
      · split at h <;> contradiction
      · split at h
        · unfold ofMeasures at h
          split at h
          · contradiction
          · split at h <;> contradiction
        · split at h
          · contradiction
          · exact (Statement.row.inj h).symm

/-- The row that a line adds to a draft. -/
def Line.draftRow (line : Line) : DraftRow :=
  { bits := (line.words.map Statement.pixelOfWord).toArray, location := line.location }

/-- The draft after some more lines of its block: the last size counts, and rows pile up. -/
def Draft.extend (draft : Draft) (body : List Line) : Draft :=
  { draft with
    dimensions := (body.filterMap Line.dimensions?).getLast?.or draft.dimensions
    rows := draft.rows ++ (body.filter Line.isRow).map Line.draftRow }

theorem Draft.extend_nil (draft : Draft) : draft.extend [] = draft := by
  cases draft
  simp [extend]

theorem Draft.extend_extend (draft : Draft) (body others : List Line) :
    (draft.extend body).extend others = draft.extend (body ++ others) := by
  simp only [extend, List.filterMap_append, List.filter_append, List.map_append,
    List.getLast?_append, Option.or_assoc, appendList_append]

namespace Reading

/-- A line of a block changes the open draft, and reports what is wrong with the line itself. -/
theorem step_of_open (draft : Draft) (found : Definitions) {line : Line}
    (h : line.opened? = none) :
    step ⟨some draft, found⟩ line =
      ⟨some (draft.extend [line]),
        found.report (line.slip?.map (draft.problem line.location)).toList⟩ := by
  rw [step]
  -- A line that is not a row adds none, and one without a size leaves the size: `extend` by one line
  -- and the reported slip are both read off the statement.
  cases hline : line.statement with
  | skip => simp [apply, Draft.extend, Line.dimensions?, Line.isRow, Line.slip?, hline]
  | glyph id => simp [Line.opened?, hline] at h
  | dimensions width height =>
    by_cases hheight : height % 8 = 0
    · simp [apply, Draft.extend, Draft.resize, Line.dimensions?, Line.isRow, Line.slip?, hline,
        bandHeight, hheight]
    · simp [apply, Draft.extend, Draft.resize, Line.dimensions?, Line.isRow, Line.slip?, hline,
        bandHeight, hheight]
  | finish => simp [apply, Draft.extend, Line.dimensions?, Line.isRow, Line.slip?, hline]
  | row bits =>
    have hbits : bits = line.words.map Statement.pixelOfWord := Statement.eq_map_of_row hline
    simp [apply, Draft.extend, Draft.addRow, Line.dimensions?, Line.isRow, Line.slip?, hline,
      Line.draftRow, hbits]
  | malformed fault =>
    simp [apply, Draft.extend, Draft.problem, Line.dimensions?, Line.isRow, Line.slip?, hline]

/-- A line before the first block changes nothing, and is reported if it belongs into a block. -/
theorem step_of_closed (found : Definitions) {line : Line} (h : line.opened? = none) :
    step ⟨none, found⟩ line =
      ⟨none, found.report (line.stray?.map fun kind =>
        { glyph := none, location := line.location, kind }).toList⟩ := by
  rw [step]
  cases hline : line.statement with
  | glyph id => simp [Line.opened?, hline] at h
  | _ => simp [apply, Line.stray?, hline]

/-- An `ID` line closes the open draft and opens another. -/
theorem step_of_opened (draft : Option Draft) (found : Definitions) {line : Line} {id : String}
    (h : line.opened? = some id) :
    step ⟨draft, found⟩ line = ⟨some { id, location := line.location }, found.close draft⟩ := by
  rw [step]
  cases hline : line.statement with
  | glyph other =>
    obtain rfl : other = id := by simpa [Line.opened?, hline] using h
    rfl
  | _ => simp [Line.opened?, hline] at h

theorem foldl_step_body (draft : Draft) (found : Definitions) {body : List Line}
    (h : ∀ line ∈ body, line.opened? = none) :
    body.foldl step ⟨some draft, found⟩ =
      ⟨some (draft.extend body),
        found.report (body.filterMap fun line => line.slip?.map (draft.problem line.location))⟩ := by
  induction body generalizing draft found with
  | nil => rw [Draft.extend_nil, List.filterMap_nil, Definitions.report_nil, List.foldl_nil]
  | cons line rest ih =>
    obtain ⟨hline, hrest⟩ := List.forall_mem_cons.mp h
    rw [List.foldl_cons, step_of_open draft found hline, ih _ _ hrest, Draft.extend_extend,
      Definitions.report_report, List.singleton_append, filterMap_cons_toList]
    rfl

theorem foldl_step_prelude (found : Definitions) {prelude : List Line}
    (h : ∀ line ∈ prelude, line.opened? = none) :
    prelude.foldl step ⟨none, found⟩ =
      ⟨none, found.report (prelude.filterMap fun line =>
        line.stray?.map fun kind => { glyph := none, location := line.location, kind })⟩ := by
  induction prelude generalizing found with
  | nil => rw [List.filterMap_nil, Definitions.report_nil, List.foldl_nil]
  | cons line rest ih =>
    obtain ⟨hline, hrest⟩ := List.forall_mem_cons.mp h
    rw [List.foldl_cons, step_of_closed found hline, ih _ hrest, Definitions.report_report,
      filterMap_cons_toList]

end Reading

/-- The draft of a block when all its lines are read. -/
def Block.draft (block : Block) : Draft :=
  Draft.extend { id := block.id, location := block.opening.location } block.body

theorem Block.dimensions_draft (block : Block) : block.draft.dimensions = block.dimensions := by
  rw [draft, Draft.extend, dimensions, Option.or_none]

theorem Block.rows_draft (block : Block) :
    block.draft.rows = (block.rowLines.map Line.draftRow).toArray := by
  apply Array.ext'
  simp [draft, Draft.extend, rowLines]

/-- What a whole block adds to the definitions. -/
def Definitions.addBlock (found : Definitions) (block : Block) : Definitions :=
  (found.report block.slips).close (some block.draft)

namespace Reading

theorem foldl_step_block (draft : Option Draft) (found : Definitions) (block : Block) :
    block.lines.foldl step ⟨draft, found⟩ =
      ⟨some block.draft, (found.close draft).report block.slips⟩ := by
  rw [Block.lines, List.foldl_cons, step_of_opened draft found block.opened,
    foldl_step_body _ _ block.opened_body]
  rfl

/-- The last line of a block does not close its draft. The line that does it, or the end of the
text, comes with the rest of the blocks. -/
theorem finish_foldl_step_blocks (draft : Option Draft) (found : Definitions)
    (blocks : List Block) :
    ((blocks.flatMap Block.lines).foldl step ⟨draft, found⟩).finish =
      blocks.foldl Definitions.addBlock (found.close draft) := by
  induction blocks generalizing draft found with
  | nil => rfl
  | cons block rest ih =>
    rw [List.flatMap_cons, List.foldl_append, foldl_step_block, ih, List.foldl_cons]
    rfl

end Reading

/-- A text defines what its blocks add, one behind the other, to the problems of the prelude. -/
theorem Definitions.untraced_ofText (text : String) :
    (Definitions.ofText text).untraced =
      (Outline.ofText text).blocks.foldl addBlock (report {} (Outline.ofText text).strays) := by
  have hfinish (reading : Reading) : reading.finish.untraced = reading.untraced.finish :=
    untraced_close reading.found reading.draft
  have hlines := Outline.lines_ofLines (Line.beforeEnd (Line.ofText text))
  have hprelude : ∀ line ∈ (Outline.ofText text).prelude, line.opened? = none :=
    Block.opened?_eq_none_of_mem_takeWhile
  rw [ofText, hfinish, Reading.untraced_readLines, ← hlines, Outline.lines, List.foldl_append,
    ← Outline.ofText]
  have hstart : Reading.untraced {} = ⟨none, {}⟩ := rfl
  rw [hstart, Reading.foldl_step_prelude {} hprelude, Reading.finish_foldl_step_blocks]
  rfl

end BitFont
