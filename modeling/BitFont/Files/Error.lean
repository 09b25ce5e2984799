/-!
# Errors of file operations
-/

namespace BitFont

inductive FileError where
  | notFound
  | alreadyExists
  | notADirectory
  | isADirectory
  | invalidArgument
  /-- A path with a NUL character, which no name can hold. -/
  | invalidName
  /-- A file that was to be text is not UTF-8. -/
  | invalidText
  /-- Any other error, in the words of the system. -/
  | other (description : String)
  deriving DecidableEq, Repr

def FileError.message : FileError → String
  | .notFound => "No such file or directory (os error 2)"
  | .alreadyExists => "File exists (os error 17)"
  | .notADirectory => "Not a directory (os error 20)"
  | .isADirectory => "Is a directory (os error 21)"
  | .invalidArgument => "Invalid argument (os error 22)"
  | .invalidName => "file name contained an unexpected NUL byte"
  | .invalidText => "stream did not contain valid UTF-8"
  | .other description => description

end BitFont
