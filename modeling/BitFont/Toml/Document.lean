import BitFont.Toml.Number

/-!
# TOML documents

A document is a sequence of lines: keys with their values, and headers that say where the keys
behind them belong. `Document.read` gives the table of all of them.
-/

namespace BitFont.Toml

namespace Reader

/-- Takes the items of an array, behind its bracket or a comma. -/
def arrayItems (item : Reader Value) : Nat → Reader (List Value)
  | 0 => fail
  | fuel + 1 => do
    bounded skipLines
    if ← accept ']' then return []
    let first ← item
    bounded skipLines
    if ← accept ',' then do
      let rest ← arrayItems item fuel
      return first :: rest
    else do
      expect ']'
      return [first]

def keyValue (item : Reader Value) : Reader (List String × Value) := do
  let path ← key
  expect '='
  skipSpace
  let value ← item
  return (path, value)

def define (path : List String) (value : Value) (entries : Entries) : Reader Entries :=
  match path.getLast? with
  | none => fail
  | some last => liftM (entries.define last value path.dropLast)

/-- Takes the keys of an inline table onto those that it has. -/
def inlineRest (item : Reader Value) (entries : Entries) : Nat → Reader Entries
  | 0 => fail
  | fuel + 1 => do
    let (path, value) ← keyValue item
    let entries ← define path value entries
    skipSpace
    if ← accept ',' then inlineRest item entries fuel
    else do
      expect '}'
      return entries

/-- Takes an inline table, behind its brace. -/
def inlineTable (item : Reader Value) : Reader Value := do
  skipSpace
  if ← accept '}' then return .table .inline []
  let entries ← bounded (inlineRest item [])
  return .table .inline entries

/-- Takes a value that holds no others. -/
def scalar : Reader Value := do
  match ← peek? with
  | some '"' => return .string (← string)
  | some '\'' => return .string (← string)
  | some 't' => if ← acceptAll "true" then return .boolean true else fail
  | some 'f' => if ← acceptAll "false" then return .boolean false else fail
  | some '[' => throw .tooDeep
  | some '{' => throw .tooDeep
  | _ => number

/-- Takes a value in which others are nested at most so deep. -/
def value : Nat → Reader Value
  | 0 => scalar
  | depth + 1 => do
    if ← accept '[' then return .array (← bounded (arrayItems (value depth)))
    else if ← accept '{' then inlineTable (value depth)
    else scalar

end Reader

/-- The document read so far, and the header that the next keys belong to. -/
structure Document where
  entries : Entries := []
  header : List String := []

namespace Document

def readHeader (document : Document) : Reader Document := do
  let repeated ← Reader.acceptAll "[["
  if !repeated then Reader.expect '['
  let path ← Reader.key
  Reader.expect ']'
  if repeated then Reader.expect ']'
  Reader.endLine
  match path.getLast? with
  | none => Reader.fail
  | some last =>
    let openIt := if repeated then Entries.openElement else Entries.openTable
    let entries ← liftM (openIt path.dropLast last document.entries)
    return { entries, header := path }

def readKey (document : Document) : Reader Document := do
  let (path, value) ← Reader.keyValue (Reader.value (Reader.maxDepth - 1))
  Reader.endLine
  match path.getLast? with
  | none => Reader.fail
  | some last =>
    let entries ← liftM
      (document.entries.within (Entries.define last value path.dropLast) document.header)
    return { document with entries }

def readLines (document : Document) : Nat → Reader Document
  | 0 => Reader.fail
  | fuel + 1 => do
    Reader.skipSpace
    match ← Reader.peek? with
    | none => return document
    | some c => do
      if c = '#' || c = '\n' || c = '\r' then do
        Reader.endLine
        document.readLines fuel
      else if c = '[' then do
        let document ← document.readHeader
        document.readLines fuel
      else do
        let document ← document.readKey
        document.readLines fuel

/-- The text without a byte order mark at its front. -/
def withoutMark (text : List Char) : List Char :=
  match text with
  | '\ufeff' :: rest => rest
  | text => text

def read (text : String) : Except Fault Entries := do
  let text := withoutMark text.toList
  let (document, _) ← ((Reader.bounded (readLines {})).run (text.length + 1)).run text
  return document.entries

end Document

end BitFont.Toml
