import BitFont.Text.Blank

/-!
# Lines with their positions

A line ends after a line feed. Its text leaves out the line feed and the carriage returns before
it, and its location is the byte range of that text in the whole text.
-/

namespace BitFont

/-- Where a line stands: its number, counted from one, and the UTF-8 byte range of its text. -/
structure Location where
  line : Nat
  start : Nat
  stop : Nat
  deriving DecidableEq, Repr

/-- A line without its ending. -/
structure Line where
  text : String
  location : Location
  deriving DecidableEq, Repr

namespace Text

/-- Adds one character in front of text that is already cut into lines. -/
def pieceStep (c : Char) (cut : List (List Char)) : List (List Char) :=
  if c = '\n' then
    [c] :: cut
  else
    match cut with
    | [] => [[c]]
    | piece :: rest => (c :: piece) :: rest

/-- The text cut after every line feed. The last piece may lack one, and no piece is empty. -/
def pieces (text : List Char) : List (List Char) :=
  text.foldr pieceStep []

@[simp] theorem pieces_nil : pieces [] = [] := rfl

@[simp] theorem pieces_cons (c : Char) (text : List Char) :
    pieces (c :: text) = pieceStep c (pieces text) := rfl

/-- Cutting loses nothing. -/
theorem flatten_pieces (text : List Char) : (pieces text).flatten = text := by
  induction text with
  | nil => rfl
  | cons c rest ih =>
    rw [pieces_cons, pieceStep.eq_def]
    split
    · simp [ih]
    · split
      · rename_i none
        rw [none] at ih
        simp at ih
        simp [ih]
      · rename_i piece others same
        rw [same] at ih
        simpa using ih

/-- Drops every carriage return and line feed at the end. -/
def withoutEnding (piece : List Char) : List Char :=
  (piece.reverse.dropWhile fun c => c == '\n' || c == '\r').reverse

end Text

/-- The line that a piece makes, at a number and a byte offset. -/
def Line.ofPiece (number offset : Nat) (piece : List Char) : Line :=
  let text := String.ofList (Text.withoutEnding piece)
  { text, location := { line := number, start := offset, stop := offset + text.utf8ByteSize } }

/-- Numbers the pieces from `number` on and places them from `offset` on, after the lines in
`done`. -/
def Line.placed (number offset : Nat) (done : Array Line) : List (List Char) → Array Line
  | [] => done
  | piece :: rest =>
    Line.placed (number + 1) (offset + (String.ofList piece).utf8ByteSize)
      (done.push (Line.ofPiece number offset piece)) rest

/-- The lines of a text, in order. -/
def Line.ofText (text : String) : List Line :=
  (Line.placed 1 0 #[] (Text.pieces text.toList)).toList

end BitFont
