import BitFont.Artifact.Naming
import BitFont.Compilation

/-!
# Limits of generated sources

Values that do not fit the generated declarations are written all the same, but not silently.
-/

namespace BitFont

/-- A character that an identifier may hold. -/
def isIdentifierChar (c : Char) : Bool := c.isAlphanum || c == '_'

/-- Text that can stand behind the stem of a name. -/
def isIdentifierTail (id : String) : Bool := id.toList.all isIdentifierChar

/-- The largest offset that a cell of the offset table holds. -/
def maxOffset : Nat := 65535

/-- The largest size that a cell of the size table holds. -/
def maxSize : Nat := 255

def Layout.Entry.limits (naming : Naming) (entry : Layout.Entry) : List Notice :=
  (if isIdentifierTail entry.id then [] else [.notAnIdentifier (naming.index entry.id)]) ++
  (if entry.offset ≤ maxOffset then [] else [.offsetTooLarge entry.offset entry.id]) ++
  (if entry.size ≤ maxSize then [] else [.sizeTooLarge entry.size entry.id])

def Compilation.limits (naming : Naming) (compilation : Compilation) : List Notice :=
  (if compilation.layout.isEmpty then [.noGlyphs] else []) ++
  compilation.glyphs.flatMap fun glyph => glyph.entry.limits naming

end BitFont
