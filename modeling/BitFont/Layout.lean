/-!
# Where each glyph's data lies

The encoded data of all glyphs is one stream. A layout gives each glyph, in order, the range of
the stream that holds its data; every range begins where the one before it ends.
-/

namespace BitFont

/-- The place of one glyph in the stream. -/
structure Layout.Entry where
  id : String
  index : Nat
  offset : Nat
  size : Nat
  deriving DecidableEq, Repr

/-- The places of all glyphs, and the length of the stream. -/
structure Layout where
  entries : Array Layout.Entry := #[]
  totalSize : Nat := 0
  deriving DecidableEq, Repr

namespace Layout

/-- Puts a glyph's data at the end of the stream, and says where that is. -/
def place (layout : Layout) (id : String) (size : Nat) : Entry × Layout :=
  let entry := { id, index := layout.entries.size, offset := layout.totalSize, size }
  (entry, { entries := layout.entries.push entry, totalSize := layout.totalSize + size })

/-- The largest total: bytes are counted in a word. -/
def maxTotal : Nat := UInt64.size - 1

/-- Puts data of any size at the end of the stream. The sum is checked: a total that is too large for
a word is a fault, and leaves no layout. A stream that is in memory is never that long, so there
data can just be placed. -/
def place? (layout : Layout) (id : String) (size : Nat) : Option (Entry × Layout) :=
  if layout.totalSize + size ≤ maxTotal then some (layout.place id size) else none

/-- Places data one after the other from the start of the stream. -/
def ofSizes (sizes : List (String × Nat)) : Layout :=
  sizes.foldl (fun layout item => (layout.place item.1 item.2).2) {}

/-- The first entry with an identifier. -/
def get? (layout : Layout) (id : String) : Option Entry :=
  layout.entries.find? (·.id == id)

/-- The number of entries. -/
def length (layout : Layout) : Nat := layout.entries.size

/-- A layout without entries. -/
def isEmpty (layout : Layout) : Bool := layout.entries.isEmpty

/-- All offsets, in order. -/
def offsets (layout : Layout) : List Nat := layout.entries.toList.map (·.offset)

/-- All sizes, in order. -/
def sizes (layout : Layout) : List Nat := layout.entries.toList.map (·.size)

end Layout

end BitFont
