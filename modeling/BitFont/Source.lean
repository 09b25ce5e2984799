import BitFont.Artifact.Basic
import BitFont.Artifact.Limits
import BitFont.Failure
import BitFont.Report

/-!
# Sources

A source is a glyph text with a name. Compiling one reports its problems, which end the run where
they are denied; generating an artifact compiles first.
-/

namespace BitFont

/-- What is said on the way: a notice, or a report to the author of the text. -/
inductive Remark where
  | notice (notice : Notice)
  | report (report : Report)
  deriving DecidableEq, Repr

def Remark.notice? : Remark → Option Notice
  | .notice said => some said
  | .report _ => none

/-- What a computation has said, and its result. -/
structure Outcome (α : Type) where
  remarks : List Remark
  result : Except Failure α

namespace Outcome

def notices {α : Type} (outcome : Outcome α) : List Notice := outcome.remarks.filterMap Remark.notice?

end Outcome

structure Settings where
  naming : Naming := ⟨"RUNE"⟩
  /-- A text with problems is not compiled. -/
  denyProblems : Bool := false
  deriving DecidableEq, Repr

namespace Settings

def severity (settings : Settings) : Severity :=
  if settings.denyProblems then .error else .warning

end Settings

structure Source where
  name : String
  text : String
  deriving DecidableEq, Repr

namespace Source

def reports (source : Source) (compilation : Compilation) (severity : Severity) : List Report :=
  compilation.diagnostics.map (Report.ofDiagnostic source.name severity)

/-- Compiles the text. Where problems are denied, a text with problems gives a failure. -/
def compile (source : Source) (settings : Settings) : Outcome Compilation :=
  let compilation := Compilation.ofText source.text
  { remarks :=
      compilation.notices.map .notice ++
        (source.reports compilation settings.severity).map .report
    result :=
      if settings.denyProblems && compilation.hasProblems then
        .error (.problems compilation.diagnostics.length source.name)
      else
        .ok compilation }

def generate (source : Source) (artifact : Artifact) (settings : Settings) : Outcome String :=
  let outcome := source.compile settings
  match outcome.result with
  | .error failure => { remarks := outcome.remarks, result := .error failure }
  | .ok compilation =>
    { remarks := outcome.remarks ++ (compilation.limits settings.naming).map .notice
      result := .ok (artifact.generate settings.naming compilation) }

end Source

end BitFont
