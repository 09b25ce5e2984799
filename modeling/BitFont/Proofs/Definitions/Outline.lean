import BitFont.Definitions

/-!
# Outlines

What a glyph text means, said without reading it step by step. The lines before the `END` line are
cut at the `ID` lines: a prelude, and then one block for each `ID` line, up to the next one. A block
is a glyph of its own, whatever other blocks say, and has its own problems.
-/

namespace BitFont

/-! ## Lines -/

namespace Line

def statement (line : Line) : Statement := Statement.ofText line.text

def words (line : Line) : List String := Text.words line.text

/-- The lines that are read: all before the first `END` line. -/
def beforeEnd (lines : List Line) : List Line :=
  lines.takeWhile fun line => line.statement ≠ .finish

/-- The identifier that an `ID` line gives. -/
def opened? (line : Line) : Option String :=
  match line.statement with
  | .glyph id => some id
  | _ => none

/-- The width and height that a `DIM` line gives. -/
def dimensions? (line : Line) : Option (Nat × Nat) :=
  match line.statement with
  | .dimensions width height => some (width, height)
  | _ => none

def isRow (line : Line) : Bool :=
  match line.statement with
  | .row _ => true
  | _ => false

/-- What is wrong with a line that stands before every `ID` line. -/
def stray? (line : Line) : Option Diagnostic.Kind :=
  match line.statement with
  | .dimensions _ _ => some .dimensionsBeforeGlyph
  | .row _ => some .rowBeforeGlyph
  | .malformed fault => some fault.kind
  | _ => none

/-- What is wrong with a line behind an `ID` line, whatever the other lines say. -/
def slip? (line : Line) : Option Diagnostic.Kind :=
  match line.statement with
  | .dimensions _ height => if height % 8 = 0 then none else some (.invalidHeight height)
  | .malformed fault => some fault.kind
  | _ => none

/-- The pixel that the word in a column stands for: set if there is a word and it is no dash. -/
def pixel (line : Line) (column : Nat) : Bool := line.words[column]?.any (· ≠ "-")

end Line

/-! ## Blocks -/

/-- An `ID` line and the lines that belong to it. -/
structure Block where
  id : String
  opening : Line
  body : List Line
  opened : opening.opened? = some id
  opened_body : ∀ line ∈ body, line.opened? = none

namespace Block

def lines (block : Block) : List Line := block.opening :: block.body

/-- The size that the block declares last. -/
def dimensions (block : Block) : Option (Nat × Nat) :=
  (block.body.filterMap Line.dimensions?).getLast?

def extent (block : Block) : Nat × Nat := block.dimensions.getD (0, 0)

/-- The lines of pixels, wherever they stand in the block. -/
def rowLines (block : Block) : List Line := block.body.filter Line.isRow

/-- The row of exactly `width` pixels that a line stands for. -/
def row (width : Nat) (line : Line) : Row :=
  ⟨((List.range width).map line.pixel).toArray⟩

/-- The glyph that the block defines. -/
def glyph (block : Block) : Glyph :=
  { id := block.id
    width := block.extent.1
    height := block.extent.2
    rows := (block.rowLines.map (row block.extent.1)).toArray }

def problem (block : Block) (location : Location) (kind : Diagnostic.Kind) : Diagnostic :=
  { glyph := some block.id, location, kind }

/-- The problems of single lines, at these lines. -/
def slips (block : Block) : List Diagnostic :=
  block.body.filterMap fun line => line.slip?.map (block.problem line.location)

/-- One problem for each line of pixels with too few words, at that line; rows are counted from
one. -/
def shortRows (block : Block) (width : Nat) : List Diagnostic :=
  block.rowLines.zipIdx.filterMap fun (line, index) =>
    if line.words.length < width then
      some (block.problem line.location (.shortRow (index + 1) width line.words.length))
    else
      none

/-- The problems of the block as a whole: no size, or rows that do not match the last one. -/
def mismatches (block : Block) : List Diagnostic :=
  match block.dimensions with
  | none => [block.problem block.opening.location .missingDimensions]
  | some (width, height) =>
    block.shortRows width ++
      if block.rowLines.length = height then []
      else [block.problem block.opening.location (.rowCountMismatch height block.rowLines.length)]

/-- All problems of the block, in the order in which they are reported. -/
def problems (block : Block) : List Diagnostic := block.slips ++ block.mismatches

theorem opened?_eq_none_of_mem_takeWhile {lines : List Line} :
    ∀ line ∈ lines.takeWhile (·.opened?.isNone), line.opened? = none := by
  intro line hline
  simpa using List.all_eq_true.mp List.all_takeWhile line hline

/-- The blocks of a list of lines: one for each `ID` line, with the lines up to the next. -/
def cut : List Line → List Block
  | [] => []
  | line :: rest =>
    match opened : line.opened? with
    | none => cut rest
    | some id =>
      { id
        opening := line
        body := rest.takeWhile (·.opened?.isNone)
        opened
        opened_body := opened?_eq_none_of_mem_takeWhile } :: cut rest

theorem cut_cons_of_none {line : Line} (h : line.opened? = none) (rest : List Line) :
    cut (line :: rest) = cut rest := by
  rw [cut]
  split
  · rfl
  · rename_i id hid
    rw [h] at hid
    contradiction

theorem cut_cons_of_some {line : Line} {id : String} (h : line.opened? = some id)
    (rest : List Line) :
    cut (line :: rest) =
      ⟨id, line, rest.takeWhile (·.opened?.isNone), h, opened?_eq_none_of_mem_takeWhile⟩ ::
        cut rest := by
  rw [cut]
  split
  · rename_i hnone
    rw [h] at hnone
    contradiction
  · rename_i other hother
    obtain rfl : id = other := Option.some.inj (h.symm.trans hother)
    rfl

theorem cut_append_of_none {body : List Line} (h : ∀ line ∈ body, line.opened? = none)
    (rest : List Line) : cut (body ++ rest) = cut rest := by
  induction body with
  | nil => rfl
  | cons line body ih =>
    obtain ⟨hline, hbody⟩ := List.forall_mem_cons.mp h
    rw [List.cons_append, cut_cons_of_none hline, ih hbody]

theorem takeWhile_flatMap_lines (blocks : List Block) :
    (blocks.flatMap lines).takeWhile (·.opened?.isNone) = [] := by
  cases blocks with
  | nil => rfl
  | cons block rest =>
    rw [List.flatMap_cons, lines, List.cons_append,
      List.takeWhile_cons_of_neg (by simp [block.opened])]

/-- Blocks that are put behind each other are cut where they were joined. -/
theorem cut_flatMap_lines (blocks : List Block) : cut (blocks.flatMap lines) = blocks := by
  induction blocks with
  | nil => rfl
  | cons block rest ih =>
    have hbody : (block.body ++ rest.flatMap lines).takeWhile (·.opened?.isNone) = block.body := by
      rw [List.takeWhile_append_of_pos (by simpa using block.opened_body),
        takeWhile_flatMap_lines, List.append_nil]
    rw [List.flatMap_cons, lines, List.cons_append, cut_cons_of_some block.opened,
      cut_append_of_none block.opened_body, ih]
    simp only [hbody]

end Block

/-! ## Outlines -/

structure Outline where
  prelude : List Line
  blocks : List Block

namespace Outline

/-- The outline of the lines that are read. -/
def ofLines (lines : List Line) : Outline :=
  { prelude := lines.takeWhile (·.opened?.isNone), blocks := Block.cut lines }

def ofText (text : String) : Outline := ofLines (Line.beforeEnd (Line.ofText text))

def lines (outline : Outline) : List Line := outline.prelude ++ outline.blocks.flatMap Block.lines

/-- Every line belongs to the prelude or to one block, and none to two. -/
theorem lines_ofLines (lines : List Line) : (ofLines lines).lines = lines := by
  induction lines with
  | nil => rfl
  | cons line rest ih =>
    rw [Outline.lines, ofLines] at ih ⊢
    cases hline : line.opened? with
    | none =>
      rw [Block.cut_cons_of_none hline, List.takeWhile_cons_of_pos (by simp [hline]),
        List.cons_append, ih]
    | some id =>
      rw [Block.cut_cons_of_some hline, List.takeWhile_cons_of_neg (by simp [hline]),
        List.nil_append, List.flatMap_cons, Block.lines, List.cons_append, ih]

/-- Blocks alone have no prelude. -/
theorem ofLines_flatMap_lines (blocks : List Block) :
    ofLines (blocks.flatMap Block.lines) = { prelude := [], blocks } := by
  rw [ofLines, Block.takeWhile_flatMap_lines, Block.cut_flatMap_lines]

/-- The problems of the prelude, which belong to no glyph. -/
def strays (outline : Outline) : List Diagnostic :=
  outline.prelude.filterMap fun line =>
    line.stray?.map fun kind => { glyph := none, location := line.location, kind }

/-- All problems, in the order in which they are reported: block by block behind the prelude. -/
def problems (outline : Outline) : List Diagnostic :=
  outline.strays ++ outline.blocks.flatMap Block.problems

end Outline

end BitFont
