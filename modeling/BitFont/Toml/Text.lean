import BitFont.Toml.Reader

/-!
# Strings and keys of a TOML text

Basic strings stand between double quotes and have escapes; literal strings stand between single
quotes and have none. Three quotes in a row begin a string of several lines, whose first line end
does not count and which may hold one or two quotes in a row.
-/

namespace BitFont.Toml.Reader

def hexValue? (c : Char) : Option Nat :=
  if '0' ≤ c ∧ c ≤ '9' then some (c.toNat - '0'.toNat)
  else if 'a' ≤ c ∧ c ≤ 'f' then some (c.toNat - 'a'.toNat + 10)
  else if 'A' ≤ c ∧ c ≤ 'F' then some (c.toNat - 'A'.toNat + 10)
  else none

/-- Takes so many hexadecimal digits as the number of a character. -/
def hexEscape (count : Nat) : Reader Char := do
  let text ← get
  match (text.take count).mapM hexValue? with
  | none => throw .invalidEscape
  | some values =>
    let n := values.foldl (fun n digit => 16 * n + digit) 0
    if values.length = count ∧ n.isValidChar then do
      set (text.drop count)
      return Char.ofNat n
    else throw .invalidEscape

/-- Takes what stands behind a backslash. -/
def escaped : Reader Char := do
  match ← get with
  | [] => throw .unexpectedEnd
  | c :: rest =>
    set rest
    match c with
    | 'b' => return '\x08'
    | 't' => return '\t'
    | 'n' => return '\n'
    | 'f' => return '\x0c'
    | 'r' => return '\r'
    | '"' => return '"'
    | '\\' => return '\\'
    | 'u' => hexEscape 4
    | 'U' => hexEscape 8
    | _ => throw .invalidEscape

/-- Takes the rest of a basic string on one line, behind the characters in `done`. -/
def basicRest (done : Array Char) : Nat → Reader String
  | 0 => fail
  | fuel + 1 => do
    match ← get with
    | [] => fail
    | c :: rest =>
      if c = '"' then do
        set rest
        return String.ofList done.toList
      else if c = '\\' then do
        set rest
        let c ← escaped
        basicRest (done.push c) fuel
      else if isPlain c then do
        set rest
        basicRest (done.push c) fuel
      else fail

/-- Takes the rest of a literal string on one line. -/
def literalRest : Reader String := do
  let text ← takeWhile fun c => isPlain c && c != '\''
  expect '\''
  return String.ofList text

/-- Takes a line end behind a backslash with all blanks and line ends behind it. -/
def acceptContinuation : Reader Bool := do
  let text ← get
  skipSpace
  if ← acceptNewline then do
    let _ ← takeWhile fun c => isSpace c || c == '\n' || c == '\r'
    return true
  else do
    set text
    return false

/-- How many of the quotes that end a string of several lines belong to its text. -/
def innerQuotes (count : Nat) : Nat := min (count - 3) 2

/-- Takes the rest of a string of several lines, behind the characters in `done`. Fewer than three
quotes in a row belong to the text; of more, the last three end it. -/
def multiLineRest (quote : Char) (done : Array Char) : Nat → Reader String
  | 0 => fail
  | fuel + 1 => do
    let text ← get
    match text with
    | [] => fail
    | c :: rest =>
      if c = quote then do
        let count := (text.takeWhile (· == quote)).length
        if count < 3 then do
          set (text.drop count)
          multiLineRest quote (done ++ Array.replicate count quote) fuel
        else do
          let inner := innerQuotes count
          set (text.drop (inner + 3))
          return String.ofList (done ++ Array.replicate inner quote).toList
      else if c = '\\' ∧ quote = '"' then do
        set rest
        if ← acceptContinuation then multiLineRest quote done fuel
        else do
          let c ← escaped
          multiLineRest quote (done.push c) fuel
      else if isPlain c then do
        set rest
        multiLineRest quote (done.push c) fuel
      else if ← acceptNewline then multiLineRest quote (done.push '\n') fuel
      else fail

def multiLine (quote : Char) : Reader String := do
  let _ ← acceptNewline
  bounded (multiLineRest quote #[])

def string : Reader String := do
  if ← acceptAll "\"\"\"" then multiLine '"'
  else if ← accept '"' then bounded (basicRest #[])
  else if ← acceptAll "'''" then multiLine '\''
  else do
    expect '\''
    literalRest

def isBareKeyChar (c : Char) : Bool := c.isAlphanum || c == '_' || c == '-'

/-- Takes one part of a key: a string on one line, or bare. -/
def keyPart : Reader String := do
  if ← accept '"' then bounded (basicRest #[])
  else if ← accept '\'' then literalRest
  else do
    let name ← takeWhile isBareKeyChar
    if name.isEmpty then fail else return String.ofList name

/-- Takes a dotted key of at most so many parts, with the blanks around its parts. -/
def keyOf : Nat → Reader (List String)
  | 0 => throw .tooDeep
  | parts + 1 => do
    skipSpace
    let first ← keyPart
    skipSpace
    if ← accept '.' then do
      let rest ← keyOf parts
      return first :: rest
    else return [first]

/-- Values and keys may be nested less deeply than this. -/
def maxDepth : Nat := 80

def key : Reader (List String) := keyOf (maxDepth - 1)

end BitFont.Toml.Reader
