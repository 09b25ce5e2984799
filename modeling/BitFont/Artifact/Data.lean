import BitFont.Artifact.Listing
import BitFont.Artifact.Naming
import BitFont.Compilation

/-!
# Data files

The data file holds three tables: the offsets and the sizes of all glyphs, written as names of the
header's constants, and the stream of encoded bytes, one block for each glyph.
-/

namespace BitFont

/-- A table of constants, in the order of the glyphs. -/
structure NameTable where
  elementType : String
  name : String
  cells : List String
  deriving DecidableEq, Repr

/-- The part of the stream that belongs to one glyph, as it is written. -/
structure DataBlock where
  glyph : CompiledGlyph
  /-- The number of bytes that are in the file already. -/
  written : Nat
  deriving DecidableEq, Repr

namespace DataBlock

def entry (block : DataBlock) : Layout.Entry := block.glyph.entry

def bytes (block : DataBlock) : List UInt8 := block.glyph.encoded.bytes

/-- The blocks of glyphs. The bytes are counted on from one block to the next, without a look at the
layout. -/
def ofGlyphs (written : Nat) : List CompiledGlyph → List DataBlock
  | [] => []
  | glyph :: rest => { glyph, written } :: ofGlyphs (written + glyph.encoded.bytes.length) rest

end DataBlock

structure Data where
  countName : String
  typeName : String
  offsets : NameTable
  sizes : NameTable
  dataName : String
  totalSize : Nat
  blocks : List DataBlock
  deriving DecidableEq, Repr

namespace Data

def namesPerLine : Nat := 4

def bytesPerLine : Nat := 16

def ofCompilation (naming : Naming) (compilation : Compilation) : Data :=
  let glyphs := compilation.glyphs
  { countName := naming.count
    typeName := naming.typeName
    offsets :=
      { elementType := "unsigned short"
        name := naming.table "offset"
        cells := glyphs.map fun glyph => naming.aspect glyph.entry.id .offset }
    sizes :=
      { elementType := "unsigned char"
        name := naming.table "size"
        cells := glyphs.map fun glyph => naming.aspect glyph.entry.id .size }
    dataName := naming.table "data"
    totalSize := compilation.totalSize
    blocks := DataBlock.ofGlyphs 0 glyphs }

/-- A list of names, a few to a line, with commas between neighbours. -/
def nameLines (names : List String) : List String :=
  (Listing.commaSeparated ((Listing.chunks namesPerLine names).map ", ".intercalate)).map
    (Listing.indent ++ ·)

def tableLines (data : Data) (table : NameTable) : List String :=
  [s!"const {table.elementType} {table.name}[{data.countName}] = \x7b"] ++
  nameLines table.cells ++
  ["\x7d;", ""]

def hexDigit (n : Nat) : Char := Nat.digitChar n

/-- A byte as two hexadecimal digits. -/
def byteText (byte : UInt8) : String :=
  String.ofList ['0', 'x', hexDigit (byte.toNat / 16), hexDigit (byte.toNat % 16)]

/-- Bytes from a position of the stream on, on one line. The byte that completes the stream has no
comma behind it. -/
def byteLine (totalSize position : Nat) (bytes : List UInt8) : String :=
  Listing.indent ++ String.join ((bytes.zipIdx position).map fun (byte, index) =>
    byteText byte ++ if index + 1 = totalSize then "" else ",")

/-- The bytes of a block, so many to a line. -/
def byteLines (totalSize : Nat) (block : DataBlock) : List String :=
  (Listing.chunks bytesPerLine block.bytes).zipIdx.map fun (bytes, row) =>
    byteLine totalSize (block.written + row * bytesPerLine) bytes

/-- A block: a comment that names the glyph, its bytes, and an empty line. -/
def blockLines (data : Data) (block : DataBlock) : List String :=
  let entry := block.entry
  [Listing.indent ++
    s!"// {data.typeName}: {entry.id}, offset {entry.offset}, size {entry.size}"] ++
  byteLines data.totalSize block ++
  [""]

def lines (data : Data) : List String :=
  data.tableLines data.offsets ++
  data.tableLines data.sizes ++
  [ s!"// {data.blocks.length} glyphs.  Total data size {data.totalSize} bytes.",
    "// This is run-length encoded.  One byte count, one byte value.  The exception is",
    "// a single 0 which represents one zero.",
    s!"const unsigned char {data.dataName}[] = \x7b" ] ++
  data.blocks.flatMap data.blockLines ++
  [ Listing.indent ++ "// End of list",
    "\x7d;" ]

def text (data : Data) : String := Listing.text data.lines

end Data

end BitFont
