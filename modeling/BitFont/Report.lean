import BitFont.Diagnostic

/-!
# Reports

A diagnostic as it is shown to the author of a glyph text: with the name of the text, and with the
wording of the problem as a label on the line at fault.
-/

namespace BitFont

inductive Severity where
  | advice
  | warning
  | error
  deriving DecidableEq, Repr

namespace Severity

def name : Severity → String
  | advice => "advice"
  | warning => "warning"
  | error => "error"

end Severity

/-- One problem in a named text. -/
structure Report where
  severity : Severity
  message : String
  label : String
  /-- The byte at which the label begins. -/
  offset : Nat
  /-- The number of bytes under the label. -/
  length : Nat
  sourceName : String
  deriving DecidableEq, Repr

namespace Report

/-- Where a problem belongs, in words. -/
def subject : Option String → String
  | some glyph => s!"problem in glyph '{glyph}'"
  | none => "problem outside of any glyph"

/-- The report of a diagnostic, with the label on its line. -/
def ofDiagnostic (sourceName : String) (severity : Severity) (diagnostic : Diagnostic) : Report :=
  { severity
    message := subject diagnostic.glyph
    label := diagnostic.kind.message
    offset := diagnostic.location.start
    length := diagnostic.location.stop - diagnostic.location.start
    sourceName }

def line (report : Report) : String :=
  s!"{report.severity.name}: {report.sourceName}: {report.message}: {report.label}"

end Report

end BitFont
