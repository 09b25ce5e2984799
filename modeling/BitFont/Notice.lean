import BitFont.Layout
import BitFont.Statement

/-!
# Notices

What the compiler says while it works, as data. A notice has a level, and those who listen choose
how much they want to hear.
-/

namespace BitFont

/-- How important a notice is, the most important level first. -/
inductive Level where
  | warn
  | info
  | debug
  | trace
  deriving DecidableEq, Repr

namespace Level

/-- The name of a level, as it stands before a notice. -/
def name : Level → String
  | warn => "WARN"
  | info => "INFO"
  | debug => "DEBUG"
  | trace => "TRACE"

/-- Levels count up as they lose importance. -/
def rank : Level → Nat
  | warn => 1
  | info => 2
  | debug => 3
  | trace => 4

end Level

/-- Something said on the way. -/
inductive Notice where
  | lineRead (line : Nat) (statement : Statement)
  | redefined (id : String)
  | glyphPlaced (entry : Layout.Entry) (width height dim : Nat)
  | compiled (glyphs bytes diagnostics : Nat)
  | noGlyphs
  | notAnIdentifier (name : String)
  | offsetTooLarge (offset : Nat) (id : String)
  | sizeTooLarge (size : Nat) (id : String)
  | removing (path : String)
  | creating (path : String)
  | writing (bytes : Nat) (path : String)
  deriving DecidableEq, Repr

namespace Notice

/-- The level of a notice. -/
def level : Notice → Level
  | lineRead .. => .trace
  | redefined .. => .warn
  | glyphPlaced .. => .debug
  | compiled .. => .info
  | noGlyphs => .warn
  | notAnIdentifier .. => .warn
  | offsetTooLarge .. => .warn
  | sizeTooLarge .. => .warn
  | removing .. => .info
  | creating .. => .info
  | writing .. => .info

/-- The wording of a notice. -/
def message : Notice → String
  | lineRead line statement => s!"line {line}: {statement.describe}"
  | redefined id => s!"glyph '{id}' is defined more than once; using the last definition"
  | glyphPlaced entry width height dim =>
    s!"glyph '{entry.id}' #{entry.index}: {width}x{height}, {dim} bytes packed, " ++
      s!"{entry.size} encoded at offset {entry.offset}"
  | compiled glyphs bytes diagnostics =>
    s!"compiled {glyphs} glyphs into {bytes} bytes with {diagnostics} diagnostics"
  | noGlyphs => "no glyphs were defined, the generated tables will be empty"
  | notAnIdentifier name => s!"'{name}' is not a valid C identifier"
  | offsetTooLarge offset id =>
    s!"offset {offset} of glyph '{id}' does not fit in an unsigned short"
  | sizeTooLarge size id => s!"size {size} of glyph '{id}' does not fit in an unsigned char"
  | removing path => s!"removing {path}"
  | creating path => s!"creating {path}"
  | writing bytes path => s!"writing {bytes} bytes to {path}"

/-- A notice as one line of a log. -/
def line (notice : Notice) : String := s!"{notice.level.name} {notice.message}"

/-- The notices that a listener hears who wants levels up to a rank. -/
def heard (rank : Nat) (notices : List Notice) : List Notice :=
  notices.filter (·.level.rank ≤ rank)

end Notice

end BitFont
