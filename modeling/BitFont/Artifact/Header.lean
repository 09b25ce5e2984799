import BitFont.Artifact.Listing
import BitFont.Artifact.Naming
import BitFont.Compilation

/-!
# Header files

The header declares one enumeration: for every glyph its index and its aspects, and at the end the
number of glyphs.
-/

namespace BitFont

/-- A named constant. -/
structure Enumerator where
  name : String
  value : Nat
  deriving DecidableEq, Repr

/-- The content of a header file. -/
structure Header where
  guardName : String
  typeName : String
  enumerators : List Enumerator
  count : Enumerator
  deriving DecidableEq, Repr

namespace Header

/-- The width of the column of names. -/
def nameColumns : Nat := 20

/-- The constants for one glyph. -/
def ofGlyph (naming : Naming) (glyph : CompiledGlyph) : List Enumerator :=
  let id := glyph.entry.id
  [ { name := naming.index id, value := glyph.entry.index },
    { name := naming.aspect id .width, value := glyph.definition.width },
    { name := naming.aspect id .height, value := glyph.definition.height },
    { name := naming.aspect id .offset, value := glyph.entry.offset },
    { name := naming.aspect id .size, value := glyph.entry.size } ]

/-- The header for a font. -/
def ofCompilation (naming : Naming) (compilation : Compilation) : Header :=
  { guardName := naming.guardName
    typeName := naming.typeName
    enumerators := compilation.glyphs.flatMap (ofGlyph naming)
    count := { name := naming.count, value := compilation.layout.length } }

/-- All constants, in order. -/
def constants (header : Header) : List Enumerator := header.enumerators ++ [header.count]

/-- A constant as it is written, without a comma. -/
def enumeratorLine (enumerator : Enumerator) : String :=
  Listing.indent ++ Listing.padded nameColumns enumerator.name ++ s!" = {enumerator.value}"

/-- The lines of the file. There is no comma behind the last constant. -/
def lines (header : Header) : List String :=
  [ s!"#ifndef {header.guardName}",
    s!"#define {header.guardName}",
    s!"enum {header.typeName} \x7b" ] ++
  header.enumerators.map (fun enumerator => enumeratorLine enumerator ++ ",") ++
  [ enumeratorLine header.count,
    "\x7d;",
    s!"#endif // {header.guardName}" ]

def text (header : Header) : String := Listing.text header.lines

end Header

end BitFont
