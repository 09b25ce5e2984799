import BitFont.Diagnostic
import BitFont.Text.Blank
import BitFont.Text.Numeral
import BitFont.Text.Quoted

/-!
# The statements of a glyph text

Every line of a glyph text is one statement, decided by its words alone: `ID` opens a glyph, `DIM`
gives its size, `END` ends the text, and any other first word begins a row of pixels, in which a
single dash is an unset pixel. Blank lines and comments say nothing.
-/

namespace BitFont

/-- The two numbers of a `DIM` line, in order. -/
inductive Measure where
  | width
  | height
  deriving DecidableEq, Repr

def Measure.name : Measure → String
  | .width => "width"
  | .height => "height"

/-- Why a directive cannot be understood. -/
inductive DirectiveFault where
  | missingIdentifier
  | missing (measure : Measure)
  | notPositive (measure : Measure)
  | badNumeral (measure : Measure) (word : String) (fault : Numeral.Fault)
  deriving DecidableEq, Repr

namespace DirectiveFault

def directive : DirectiveFault → String
  | missingIdentifier => "ID"
  | _ => "DIM"

def reason : DirectiveFault → String
  | missingIdentifier => "missing identifier"
  | missing measure => s!"missing {measure.name}"
  | notPositive measure => s!"{measure.name} must be positive"
  | badNumeral measure word fault => s!"invalid {measure.name} '{word}': {fault.message}"

def kind (fault : DirectiveFault) : Diagnostic.Kind :=
  .malformedDirective fault.directive fault.reason

end DirectiveFault

/-- What a line says. -/
inductive Statement where
  | skip
  | glyph (id : String)
  | dimensions (width height : Nat)
  | finish
  | row (bits : List Bool)
  | malformed (fault : DirectiveFault)
  deriving DecidableEq, Repr

namespace Statement

/-- Reads one measure from the words behind `DIM`, and gives the words that are left. -/
def readMeasure (measure : Measure) : List String → Except DirectiveFault (Nat × List String)
  | [] => .error (.missing measure)
  | word :: rest =>
    match Numeral.read word with
    | .error fault => .error (.badNumeral measure word fault)
    | .ok 0 => .error (.notPositive measure)
    | .ok value => .ok (value, rest)

/-- Reads the words behind `DIM`. The width is looked at first, and words behind the height are
ignored. -/
def ofMeasures (words : List String) : Statement :=
  match readMeasure .width words with
  | .error fault => malformed fault
  | .ok (width, rest) =>
    match readMeasure .height rest with
    | .error fault => malformed fault
    | .ok (height, _) => dimensions width height

/-- A word that begins a comment. -/
def isComment (word : String) : Bool := word.toList.head? == some '#'

/-- Any word but a single dash is a set pixel. -/
def pixelOfWord (word : String) : Bool := word != "-"

def ofWords : List String → Statement
  | [] => skip
  | first :: rest =>
    if isComment first then skip
    else if first = "ID" then
      match rest with
      | [] => malformed .missingIdentifier
      | id :: _ => glyph id
    else if first = "DIM" then ofMeasures rest
    else if first = "END" then finish
    else row ((first :: rest).map pixelOfWord)

/-- What a line says. -/
def ofText (text : String) : Statement := ofWords (Text.words text)

def describePixel (pixel : Bool) : String := if pixel then "true" else "false"

def describe : Statement → String
  | skip => "Skip"
  | glyph id => s!"Glyph({Text.quoted id})"
  | dimensions width height => s!"Dimensions \x7b width: {width}, height: {height} \x7d"
  | finish => "End"
  | row bits => "Row([" ++ ", ".intercalate (bits.map describePixel) ++ "])"
  | malformed fault =>
    s!"Malformed(MalformedDirective \x7b directive: {Text.quoted fault.directive}, " ++
      s!"reason: {Text.quoted fault.reason} \x7d)"

end Statement

end BitFont
