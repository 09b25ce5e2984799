import BitFont.Source

/-!
# The host

The tool acts on its surroundings only through a host: the files, the standard input and those who
listen to its remarks. An action on a host ends with a value or with a failure.
-/

namespace BitFont

/-- What the tool needs of its surroundings. -/
class Host (m : Type → Type) where
  isPresent : Path → m Bool
  read : Path → m (Except FileError ByteArray)
  /-- All of the standard input. -/
  readInput : m (Except FileError ByteArray)
  write : Path → ByteArray → m (Except FileError Unit)
  /-- Makes a directory and all around it that are missing. -/
  makeDirectories : Path → m (Except FileError Unit)
  /-- Removes a directory and all that it holds. -/
  removeDirectory : Path → m (Except FileError Unit)
  remark : Remark → m Unit

/-- A computation on a host that may fail. -/
abbrev Action (m : Type → Type) (α : Type) : Type := ExceptT Failure m α

namespace Action

variable {m : Type → Type} [Monad m]

/-- Does something on the host, and says how its error is a failure. -/
def attempt {α : Type} (fails : FileError → Failure) (effect : m (Except FileError α)) :
    Action m α :=
  ExceptT.mk do
    match ← effect with
    | .ok value => return .ok value
    | .error error => return .error (fails error)

variable [Host m]

def notify (notice : Notice) : Action m Unit := ExceptT.lift (Host.remark (.notice notice))

/-- Says what was said on the way, and ends with the result. -/
def deliver {α : Type} (outcome : Outcome α) : Action m α := do
  ExceptT.lift (outcome.remarks.forM Host.remark)
  ExceptT.mk (pure outcome.result)

/-- The text that bytes are in UTF-8. -/
def decodeText (content : Except FileError ByteArray) : Except FileError String :=
  match content with
  | .error error => .error error
  | .ok bytes =>
    match String.fromUTF8? bytes with
    | some text => .ok text
    | none => .error .invalidText

def readText (path : Path) : Action m String :=
  attempt (.unreadable path) (decodeText <$> Host.read path)

/-- Makes a directory and all around it that are missing. -/
def makeDirectories (path : Path) : Action m Unit :=
  attempt (.directoryNotMade path) (Host.makeDirectories path)

/-- Writes text into a file, whose directory is made if it is missing. -/
def writeText (path : Path) (text : String) : Action m Unit := do
  match path.parent? with
  | some parent => if parent.text = "" then pure () else makeDirectories parent
  | none => pure ()
  attempt (.unwritable path) (Host.write path text.toUTF8)

end Action

namespace Source

variable {m : Type → Type} [Monad m] [Host m]

/-- How the standard input is called in messages. -/
def inputName : String := "<stdin>"

/-- A path that stands for the standard input: a single dash, whatever idle segments follow. -/
def isInput (path : Path) : Bool :=
  match path.segments with
  | "-" :: rest => rest.all Path.isIdle
  | _ => false

def readInput : Action m Source := do
  let text ← Action.attempt .inputUnreadable (Action.decodeText <$> Host.readInput)
  return { name := inputName, text }

/-- Reads a source from a file, or from the standard input. -/
def read (path : Option Path) : Action m Source := do
  match path with
  | none => readInput
  | some path =>
    if isInput path then readInput
    else do
      let text ← Action.readText path
      return { name := path.text, text }

def readAndGenerate (path : Option Path) (artifact : Artifact) (settings : Settings) :
    Action m String := do
  let source ← read path
  Action.deliver (source.generate artifact settings)

end Source

end BitFont
