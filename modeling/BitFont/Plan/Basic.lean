import BitFont.Artifact.Basic
import BitFont.Files.Path

/-!
# Plans

A plan lists the artifacts to generate in one go, and directories to empty before that. Its
relative paths are meant from the directory in which the plan lies.
-/

namespace BitFont

/-- One artifact of a plan. -/
structure Plan.Entry where
  source : Path
  target : Path
  artifact : Artifact
  /-- The stem of the names in this artifact, instead of that of the run. -/
  stem : Option String
  deriving DecidableEq, Repr

/-- Directories to empty and artifacts to generate, in order. -/
structure Plan where
  clean : List Path
  entries : List Plan.Entry
  deriving DecidableEq, Repr

namespace Plan

/-- The entry with its paths meant from a directory. -/
def Entry.under (root : Path) (entry : Entry) : Entry :=
  { entry with source := root.under entry.source, target := root.under entry.target }

/-- The plan with its paths meant from a directory. -/
def under (root : Path) (plan : Plan) : Plan :=
  { clean := plan.clean.map root.under, entries := plan.entries.map (Entry.under root) }

end Plan

end BitFont
