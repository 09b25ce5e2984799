/-!
# Values of a TOML document

A document is a table of values. Tables remember how they came about, because that decides what
may still be added to them: a table that was only implied by a longer name may be opened once, one
that was spelled out may not be opened again, and dotted keys may only grow what dotted keys made.
-/

namespace BitFont.Toml

/-- How a table came about. -/
inductive Origin where
  /-- A header below it was opened. -/
  | implied
  /-- A dotted key runs through it. -/
  | dotted
  /-- It has a header of its own. -/
  | header
  /-- It stands between braces. -/
  | inline
  deriving DecidableEq, Repr

/-- A value. Numbers with a fraction and dates are kept as they were written. -/
inductive Value where
  | string (text : String)
  | integer (value : Int)
  | boolean (value : Bool)
  | float (text : String)
  | dateTime (text : String)
  | array (items : List Value)
  | table (origin : Origin) (entries : List (String × Value))
  /-- The tables under one repeated header. -/
  | tables (elements : List (List (String × Value)))

/-- The entries of a table, in order. -/
abbrev Entries := List (String × Value)

/-- Why a text is not a document. -/
inductive Fault where
  | unexpectedEnd
  | unexpected (found : Char)
  | invalidEscape
  | invalidNumber (text : String)
  | invalidDate (text : String)
  | tooDeep
  | duplicateKey (key : String)
  | notATable (key : String)
  deriving DecidableEq, Repr

def Fault.message : Fault → String
  | .unexpectedEnd => "unexpected end of text"
  | .unexpected found => s!"unexpected character '{found}'"
  | .invalidEscape => "invalid escape sequence"
  | .invalidNumber text => s!"invalid number '{text}'"
  | .invalidDate text => s!"invalid date '{text}'"
  | .tooDeep => "too many nested values"
  | .duplicateKey key => s!"duplicate key '{key}'"
  | .notATable key => s!"'{key}' is not a table"

namespace Entries

def get? (entries : Entries) (key : String) : Option Value :=
  (entries.find? (·.1 == key)).map (·.2)

/-- Changes the value of a key, which is put at the end if it is new. -/
def alter (key : String) (change : Option Value → Except Fault Value) :
    Entries → Except Fault Entries
  | [] => do
    let value ← change none
    return [(key, value)]
  | (other, old) :: rest =>
    if other = key then do
      let value ← change (some old)
      return (other, value) :: rest
    else do
      let rest ← alter key change rest
      return (other, old) :: rest

/-- Changes the last of some tables. -/
def alterLast (change : Entries → Except Fault Entries) :
    List Entries → Except Fault (List Entries)
  | [] => .ok []
  | [last] => do
    let last ← change last
    return [last]
  | first :: rest => do
    let rest ← alterLast change rest
    return first :: rest

/-- Changes the entries at the end of a header's path. Missing tables are implied, and a repeated
header means its last table. -/
def within (change : Entries → Except Fault Entries) :
    List String → Entries → Except Fault Entries
  | [], entries => change entries
  | key :: path, entries =>
    entries.alter key fun
      | none => do return .table .implied (← within change path [])
      | some (.table .inline _) => .error (.notATable key)
      | some (.table origin inner) => do return .table origin (← within change path inner)
      | some (.tables elements) => do return .tables (← alterLast (within change path) elements)
      | some _ => .error (.notATable key)

def openTable (path : List String) (key : String) : Entries → Except Fault Entries :=
  within (fun entries => entries.alter key fun
    | none => .ok (.table .header [])
    | some (.table .implied inner) => .ok (.table .header inner)
    | some _ => .error (.duplicateKey key)) path

def openElement (path : List String) (key : String) : Entries → Except Fault Entries :=
  within (fun entries => entries.alter key fun
    | none => .ok (.tables [[]])
    | some (.tables elements) => .ok (.tables (elements ++ [[]]))
    | some _ => .error (.duplicateKey key)) path

/-- Gives a new key its value. The path of a dotted key may run through implied and dotted tables,
and the last of them must be dotted. -/
def define (key : String) (value : Value) : List String → Entries → Except Fault Entries
  | [], entries =>
    entries.alter key fun
      | none => .ok value
      | some _ => .error (.duplicateKey key)
  | step :: path, entries =>
    entries.alter step fun
      | none => do return .table .dotted (← define key value path [])
      | some (.table .dotted inner) => do return .table .dotted (← define key value path inner)
      | some (.table .implied inner) =>
        if path.isEmpty then .error (.duplicateKey step)
        else do return .table .implied (← define key value path inner)
      | some (.tables elements) =>
        if path.isEmpty then .error (.duplicateKey step)
        else do return .tables (← alterLast (define key value path) elements)
      | some (.table _ _) => .error (.duplicateKey step)
      | some _ => .error (.notATable step)

end Entries

end BitFont.Toml
