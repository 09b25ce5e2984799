import BitFont.Host

/-!
# Running plans

A run empties the directories first, then generates every artifact, and writes only when all of
them are there. So an entry that reads the target of another one sees what lay there before.
-/

namespace BitFont.Plan

variable {m : Type → Type} [Monad m] [Host m]

/-- Reads a plan, whose paths are then meant from its directory. -/
def load (path : Path) : Action m Plan := do
  let text ← Action.readText path
  match ofText text with
  | .error fault => throw (.invalidPlan fault)
  | .ok plan => return plan.under (path.parent?.getD ⟨""⟩)

/-- Removes what lies at a path, and makes an empty directory there. -/
def renew (path : Path) : Action m Unit := do
  if ← ExceptT.lift (Host.isPresent path) then do
    Action.notify (.removing path.text)
    Action.attempt (.directoryNotCleaned path) (Host.removeDirectory path)
  Action.notify (.creating path.text)
  Action.makeDirectories path

/-- The settings for an entry: its own stem goes before that of the run. -/
def Entry.settings (entry : Entry) (settings : Settings) : Settings :=
  match entry.stem with
  | some stem => { settings with naming := ⟨stem⟩ }
  | none => settings

/-- Generates the text of an entry. -/
def Entry.generate (entry : Entry) (settings : Settings) : Action m String :=
  Source.readAndGenerate (some entry.source) entry.artifact (entry.settings settings)

/-- Writes a text to a path, and says so. -/
def writeOut (path : Path) (text : String) : Action m Unit := do
  Action.notify (.writing text.utf8ByteSize path.text)
  Action.writeText path text

/-- Renews the directories of a plan, in order. -/
def renewAll (plan : Plan) : Action m Unit := plan.clean.forM renew

/-- Generates the texts of all entries, in order. -/
def generateAll (plan : Plan) (settings : Settings) : Action m (List String) :=
  plan.entries.mapM (Entry.generate · settings)

/-- Writes the texts of all entries to their targets, in order. -/
def writeAll (plan : Plan) (texts : List String) : Action m Unit :=
  (plan.entries.zip texts).forM fun (entry, text) => writeOut entry.target text

def run (plan : Plan) (settings : Settings) : Action m Unit := do
  plan.renewAll
  let texts ← plan.generateAll settings
  plan.writeAll texts

end BitFont.Plan
