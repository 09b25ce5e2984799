import BitFont.Artifact.Data
import BitFont.Artifact.Header

/-!
# Artifacts

The two files that are generated for a font: the header with all constants, and the data.
-/

namespace BitFont

inductive Artifact where
  | header
  | data
  deriving DecidableEq, Repr

namespace Artifact

/-- How plans and commands call an artifact. -/
def name : Artifact → String
  | header => "header"
  | data => "data"

/-- The artifact of a name, which must be spelled exactly. -/
def ofName? (name : String) : Option Artifact :=
  if name = header.name then some header
  else if name = data.name then some data
  else none

def generate (artifact : Artifact) (naming : Naming) (compilation : Compilation) : String :=
  match artifact with
  | header => (Header.ofCompilation naming compilation).text
  | data => (Data.ofCompilation naming compilation).text

end Artifact

end BitFont
