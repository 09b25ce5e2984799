import BitFont.Plan.Basic
import BitFont.Toml.Document

/-!
# Reading plans

A plan is written as a TOML document. Keys that a plan does not know are ignored; a missing key
and a value of the wrong type are faults.
-/

namespace BitFont.Plan

/-- Why a text is not a plan. -/
inductive Fault where
  | document (fault : Toml.Fault)
  | missing (key : String)
  | wrongType (key expected : String)
  | unknownArtifact (name : String)
  deriving DecidableEq, Repr

def Fault.message : Fault → String
  | .document fault => fault.message
  | .missing key => s!"missing '{key}'"
  | .wrongType key expected => s!"'{key}' must be {expected}"
  | .unknownArtifact name => s!"unknown artifact '{name}'"

-- The keys of a plan and of its entries.
def cleanKey : String := "clean"
def generateKey : String := "generate"
def sourceKey : String := "source"
def targetKey : String := "target"
def artifactKey : String := "artifact"
def stemKey : String := "prefix"

def required (key : String) : Option Toml.Value → Except Fault Toml.Value
  | none => .error (.missing key)
  | some value => .ok value

def readString (key : String) : Toml.Value → Except Fault String
  | .string text => .ok text
  | _ => .error (.wrongType key "a string")

def readPath (key : String) (value : Toml.Value) : Except Fault Path :=
  (readString key value).map Path.mk

/-- A value that holds nothing. -/
def isHollow : Toml.Value → Bool
  | .array [] => true
  | .table _ [] => true
  | _ => false

/-- An artifact is a name, or a table whose only key is the name and holds nothing. -/
def readArtifact (value : Toml.Value) : Except Fault Artifact :=
  let named (name : String) : Except Fault Artifact :=
    match Artifact.ofName? name with
    | some artifact => .ok artifact
    | none => .error (.unknownArtifact name)
  match value with
  | .string name => named name
  | .table _ [(name, content)] => do
    let artifact ← named name
    if isHollow content then .ok artifact
    else .error (.wrongType artifactKey "the name of an artifact")
  | _ => .error (.wrongType artifactKey "the name of an artifact")

/-- A stem may be left out. -/
def readStem : Option Toml.Value → Except Fault (Option String)
  | none => .ok none
  | some value => (readString stemKey value).map some

def readEntry (source target artifact stem : Option Toml.Value) : Except Fault Entry := do
  let source ← required sourceKey source
  let source ← readPath sourceKey source
  let target ← required targetKey target
  let target ← readPath targetKey target
  let artifact ← required artifactKey artifact
  let artifact ← readArtifact artifact
  let stem ← readStem stem
  return { source, target, artifact, stem }

def entryOfTable (entries : Toml.Entries) : Except Fault Entry :=
  readEntry (entries.get? sourceKey) (entries.get? targetKey) (entries.get? artifactKey)
    (entries.get? stemKey)

/-- An entry is a table, or an array of its values in the order of the keys. -/
def entryOfValue : Toml.Value → Except Fault Entry
  | .table _ entries => entryOfTable entries
  | .array items => readEntry items[0]? items[1]? items[2]? items[3]?
  | _ => .error (.wrongType generateKey "an array of tables")

def readEntries : Toml.Value → Except Fault (List Entry)
  | .array items => items.mapM entryOfValue
  | .tables elements => elements.mapM entryOfTable
  | _ => .error (.wrongType generateKey "an array of tables")

/-- Reads the directories to empty, which may be left out. -/
def readClean : Option Toml.Value → Except Fault (List Path)
  | none => .ok []
  | some (.array items) => items.mapM (readPath cleanKey)
  | some _ => .error (.wrongType cleanKey "an array of strings")

def ofEntries (entries : Toml.Entries) : Except Fault Plan := do
  let clean ← readClean (entries.get? cleanKey)
  let listed ← required generateKey (entries.get? generateKey)
  let entries ← readEntries listed
  return { clean, entries }

def ofText (text : String) : Except Fault Plan :=
  match Toml.Document.read text with
  | .error fault => .error (.document fault)
  | .ok entries => ofEntries entries

end BitFont.Plan
