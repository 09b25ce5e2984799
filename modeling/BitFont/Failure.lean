import BitFont.Files.Error
import BitFont.Plan.Reader

/-!
# Failures

What ends a run of the tool, with the words in which it is told.
-/

namespace BitFont

/-- Why a run ended without a result. -/
inductive Failure where
  | unreadable (path : Path) (error : FileError)
  | inputUnreadable (error : FileError)
  | problems (count : Nat) (sourceName : String)
  | directoryNotMade (path : Path) (error : FileError)
  | directoryNotCleaned (path : Path) (error : FileError)
  | unwritable (path : Path) (error : FileError)
  | invalidPlan (fault : Plan.Fault)
  deriving DecidableEq, Repr

def Failure.message : Failure → String
  | .unreadable path error => s!"error reading '{path.text}': {error.message}"
  | .inputUnreadable error => s!"error reading stdin: {error.message}"
  | .problems count sourceName => s!"{count} problem(s) found in '{sourceName}'"
  | .directoryNotMade path error =>
    s!"failed to create directory '{path.text}': {error.message}"
  | .directoryNotCleaned path error =>
    s!"failed to clean directory '{path.text}': {error.message}"
  | .unwritable path error => s!"error writing '{path.text}': {error.message}"
  | .invalidPlan fault => s!"failed to parse plan: '{fault.message}'"

end BitFont
