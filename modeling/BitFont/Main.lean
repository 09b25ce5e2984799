import BitFont.Command.Run

/-!
# The program

The tool in its real surroundings: files, standard input and output, and remarks on the standard
error stream.
-/

namespace BitFont

/-- Effects in the real surroundings, with the rank up to which notices are heard. -/
abbrev Terminal : Type → Type := ReaderT Nat IO

namespace Terminal

def fileError : IO.Error → FileError
  | .noFileOrDirectory .. => .notFound
  | .alreadyExists .. => .alreadyExists
  | .inappropriateType _ 20 _ => .notADirectory
  | .inappropriateType _ 21 _ => .isADirectory
  | .invalidArgument _ 22 _ => .invalidArgument
  | .permissionDenied _ code details => .other s!"{details} (os error {code})"
  | .resourceExhausted _ code details => .other s!"{details} (os error {code})"
  | .unsatisfiedConstraints code details => .other s!"{details} (os error {code})"
  | error => .other (toString error)

/-- Does something and catches its error. -/
def caught {α : Type} (effect : IO α) : IO (Except FileError α) := do
  match ← effect.toBaseIO with
  | .ok value => return .ok value
  | .error error => return .error (fileError error)

def isPresent (path : String) : IO Bool := do
  match ← (IO.FS.realPath path).toBaseIO with
  | .ok _ => return true
  | .error _ => return false

def ensureDirectory (path : Path) : IO (Except FileError Unit) := do
  match ← caught (IO.FS.createDir path.text) with
  | .ok _ => return .ok ()
  | .error error =>
    if ← isPresent (path.text ++ "/.") then return .ok () else return .error error

/-- Makes the first of some nested directories, given from the inside out, and those around it
that are missing. -/
def makeNested : List Path → IO (Except FileError Unit)
  | [] => return .ok ()
  | path :: around => do
    match ← ensureDirectory path with
    | .error .notFound =>
      match ← makeNested around with
      | .ok _ => ensureDirectory path
      | .error error => return .error error
    | result => return result

/-- Makes a directory and all around it that are missing. -/
def makeDirectories (path : Path) : IO (Except FileError Unit) :=
  if path.text = "" then return .ok () else makeNested (path :: path.parents)

/-- Says something to a listener. -/
def say (rank : Nat) : Remark → IO Unit
  | .notice notice =>
    if notice.level.rank ≤ rank then IO.eprintln notice.line else return ()
  | .report report => IO.eprintln report.line

instance : Host Terminal where
  isPresent path := fun _ => isPresent path.text
  read path := fun _ => caught (IO.FS.readBinFile path.text)
  readInput := fun _ => caught do
    let input ← IO.getStdin
    input.readBinToEnd
  write path content := fun _ => caught (IO.FS.writeBinFile path.text content)
  makeDirectories path := fun _ => makeDirectories path
  removeDirectory path := fun _ => caught (IO.FS.removeDirAll path.text)
  remark remark := fun rank => say rank remark

def answer (arguments : List String) : IO Response := do
  match Invocation.ofArguments arguments with
  | .error stop => return Response.ofStop stop
  | .ok invocation => (invocation.run : Terminal Response).run invocation.rank

end Terminal

end BitFont

/-- Runs the tool on the arguments of the process. -/
def main (arguments : List String) : IO UInt32 := do
  let response ← BitFont.Terminal.answer arguments
  IO.print response.output
  match response.complaint with
  | some complaint => IO.eprintln complaint
  | none => pure ()
  return response.code.toUInt32
