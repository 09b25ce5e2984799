import BitFont.Toml.Value

/-!
# Reading characters of a TOML text

A reader takes characters from the front of a text and gives a value, or says why it cannot. Here
are the readers for single characters, blanks, line ends and digits.
-/

namespace BitFont.Toml

/-- Takes characters from the front of a text. A number larger than the length of the whole text
bounds the steps of all loops. -/
abbrev Reader (α : Type) := ReaderT Nat (StateT (List Char) (Except Fault)) α

namespace Reader

/-- The fault at this point of the text. -/
def fail {α : Type} : Reader α := do
  match ← get with
  | [] => throw .unexpectedEnd
  | c :: _ => throw (.unexpected c)

/-- The next character, which stays. -/
def peek? : Reader (Option Char) := do return (← get).head?

/-- Takes the next character if it belongs to a class. -/
def acceptIf (inside : Char → Bool) : Reader Bool := do
  match ← get with
  | c :: rest =>
    if inside c then do
      set rest
      return true
    else return false
  | [] => return false

/-- Takes the next character if it is the given one. -/
def accept (c : Char) : Reader Bool := acceptIf (· == c)

/-- Takes the given characters if they are next. -/
def acceptAll (word : String) : Reader Bool := do
  let text ← get
  if word.toList.isPrefixOf text then do
    set (text.drop word.length)
    return true
  else return false

/-- Takes the given character, which must be next. -/
def expect (c : Char) : Reader Unit := do
  if ← accept c then return () else fail

/-- Takes the characters up to the first one outside of a class. -/
def takeWhile (inside : Char → Bool) : Reader (List Char) := do
  let text ← get
  set (text.dropWhile inside)
  return text.takeWhile inside

/-- Runs a reader that needs a bound on its steps. -/
def bounded {α : Type} (read : Nat → Reader α) : Reader α := do
  read (← readThe Nat)

/-- A space or a tab. -/
def isSpace (c : Char) : Bool := c == ' ' || c == '\t'

/-- Characters of a comment: all but control characters, and the tab. -/
def isPlain (c : Char) : Bool := c == '\t' || (0x20 ≤ c.toNat && c.toNat != 0x7F)

def skipSpace : Reader Unit := do
  let _ ← takeWhile isSpace

/-- Takes a line feed, with or without a carriage return before it. -/
def acceptNewline : Reader Bool := do
  if ← accept '\n' then return true else acceptAll "\r\n"

/-- Takes a comment, if one is next. -/
def skipComment : Reader Unit := do
  if ← accept '#' then
    let _ ← takeWhile isPlain

/-- Takes the rest of a line, which may hold a comment. The end of the text ends a line too. -/
def endLine : Reader Unit := do
  skipSpace
  skipComment
  if (← get).isEmpty then return ()
  if ← acceptNewline then return () else fail

/-- Takes blanks, comments and line ends. A comment here needs a line end behind it. -/
def skipLines : Nat → Reader Unit
  | 0 => fail
  | fuel + 1 => do
    skipSpace
    let next ← peek?
    if next = some '#' || next = some '\n' || next = some '\r' then do
      skipComment
      if ← acceptNewline then skipLines fuel else fail
    else return ()

/-- Takes digits of a class, at least one. An underscore may stand between two of them; it is left
out of the result. -/
def digitsFrom (isDigit : Char → Bool) : List Char → List Char × List Char
  | [] => ([], [])
  | c :: rest =>
    if isDigit c then
      let (digits, rest) := digitsFrom isDigit rest
      (c :: digits, rest)
    else if c = '_' then
      match rest with
      | [] => ([], [c])
      | d :: _ =>
        if isDigit d then digitsFrom isDigit rest else ([], c :: rest)
    else ([], c :: rest)

def digits (isDigit : Char → Bool) : Reader (List Char) := do
  match ← get with
  | [] => fail
  | c :: rest =>
    if isDigit c then do
      let (found, rest) := digitsFrom isDigit (c :: rest)
      set rest
      return found
    else fail

end Reader

end BitFont.Toml
