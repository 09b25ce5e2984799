import BitFont.Definitions
import BitFont.Glyph.Plane
import BitFont.Run.Basic

/-!
# Compiled fonts

Compiling packs and encodes every glyph of a text and lays the encoded data out as one stream, in
the order of the glyphs. It never fails: a text with problems gives a font and its diagnostics.
-/

namespace BitFont

structure EncodedGlyph where
  id : String
  bytes : List UInt8
  /-- The size of the bitmap before it was encoded. -/
  dim : Nat
  deriving DecidableEq, Repr

namespace EncodedGlyph

def ofGlyph (glyph : Glyph) : EncodedGlyph :=
  { id := glyph.id, bytes := Run.encode glyph.plane.bytes, dim := glyph.dim }

def size (encoded : EncodedGlyph) : Nat := encoded.bytes.length

end EncodedGlyph

/-- A glyph with its data and its place in the stream. -/
structure CompiledGlyph where
  definition : Glyph
  encoded : EncodedGlyph
  entry : Layout.Entry
  deriving DecidableEq, Repr

structure Compilation where
  definitions : List Glyph
  encoded : List EncodedGlyph
  layout : Layout
  diagnostics : List Diagnostic
  /-- What was said while the text was read. -/
  readingNotices : List Notice
  deriving DecidableEq, Repr

namespace Compilation

def ofDefinitions (found : Definitions) : Compilation :=
  let definitions := found.glyphs.toList
  let encoded := definitions.map EncodedGlyph.ofGlyph
  { definitions
    encoded
    layout := Layout.ofSizes (encoded.map fun glyph => (glyph.id, glyph.size))
    diagnostics := found.diagnostics.toList
    readingNotices := found.notices.toList }

def ofText (text : String) : Compilation := ofDefinitions (Definitions.ofText text)

/-- The glyphs with their data and places, in order. -/
def glyphs (compilation : Compilation) : List CompiledGlyph :=
  (compilation.definitions.zip (compilation.encoded.zip compilation.layout.entries.toList)).map
    fun (definition, encoded, entry) => { definition, encoded, entry }

/-- The stream: the encoded data of all glyphs. -/
def payload (compilation : Compilation) : List UInt8 :=
  compilation.encoded.flatMap (·.bytes)

def totalSize (compilation : Compilation) : Nat := compilation.layout.totalSize

def hasProblems (compilation : Compilation) : Bool := !compilation.diagnostics.isEmpty

def placement (glyph : CompiledGlyph) : Notice :=
  .glyphPlaced glyph.entry glyph.definition.width glyph.definition.height glyph.encoded.dim

def summary (compilation : Compilation) : Notice :=
  .compiled compilation.layout.length compilation.totalSize compilation.diagnostics.length

def notices (compilation : Compilation) : List Notice :=
  compilation.readingNotices ++ compilation.glyphs.map placement ++ [compilation.summary]

end Compilation

end BitFont
