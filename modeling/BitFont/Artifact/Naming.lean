import BitFont.Text.Letter

/-!
# Names in generated sources

Every generated name is built from one stem, such as `RUNE`. Names of constants keep the spelling
of the stem and of the glyph; table names are small and the include guard is in capitals.
-/

namespace BitFont

/-- The stem of all names of one generated source. -/
structure Naming where
  stem : String
  deriving DecidableEq, Repr

/-- What a glyph has a constant for, besides its index. -/
inductive Aspect where
  | width
  | height
  | offset
  | size
  deriving DecidableEq, Repr

/-- The ending of the constants for an aspect. -/
def Aspect.ending : Aspect → String
  | .width => "WIDTH"
  | .height => "HEIGHT"
  | .offset => "OFFSET"
  | .size => "SIZE"

namespace Naming

/-- The constant for a glyph's index. -/
def index (naming : Naming) (id : String) : String := s!"{naming.stem}_{id}"

/-- The constant for an aspect of a glyph. -/
def aspect (naming : Naming) (id : String) (aspect : Aspect) : String :=
  s!"{naming.stem}_{id}_{aspect.ending}"

/-- The constant for the number of glyphs. -/
def count (naming : Naming) : String := s!"{naming.stem}_NUM"

/-- The name of a table. -/
def table (naming : Naming) (kind : String) : String :=
  s!"{Text.asciiSmall naming.stem}_{kind}"

/-- The name of the enumeration. -/
def typeName (naming : Naming) : String := Text.capitalized naming.stem

/-- The macro that keeps a header from being read twice. -/
def guardName (naming : Naming) : String := s!"__{Text.asciiCapital naming.stem}S__"

end Naming

end BitFont
