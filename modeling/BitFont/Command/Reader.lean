import BitFont.Command.Argument
import BitFont.Command.Basic

/-!
# Reading command lines

A command line names one command, with options before and behind the name. The options of the tool
may stand at both places; the ones behind the name go first. An option may be given once at each
place, except the one for more notices, which counts.
-/

namespace BitFont.Command

inductive UsageFault where
  | unknownOption (name : String)
  | missingValue (flag : Flag)
  | emptyValue (name : String)
  | unneededValue (flag : Flag)
  | repeated (flag : Flag)
  | missingCommand
  | unknownCommand (name : String)
  | missingOperand (name : String)
  | unexpected (text : String)
  deriving DecidableEq, Repr

def UsageFault.message : UsageFault → String
  | .unknownOption name => s!"unexpected argument '{name}' found"
  | .missingValue flag => s!"a value is required for '--{flag.name}' but none was supplied"
  | .emptyValue name => s!"a value is required for '{name}' but none was supplied"
  | .unneededValue flag => s!"unexpected value for '--{flag.name}' found; no more were expected"
  | .repeated flag => s!"the argument '--{flag.name}' cannot be used multiple times"
  | .missingCommand => "a subcommand is required but one was not provided"
  | .unknownCommand name => s!"unrecognized subcommand '{name}'"
  | .missingOperand name => s!"the required argument '{name}' was not provided"
  | .unexpected text => s!"unexpected argument '{text}' found"

/-- Why a command line is no invocation. -/
inductive Stop where
  | usage (fault : UsageFault)
  | help
  | version
  deriving DecidableEq, Repr

inductive Verb where
  | generate (artifact : Artifact)
  | check
  | plan
  deriving DecidableEq, Repr

namespace Verb

def all : List Verb := [generate .header, generate .data, check, plan]

def name : Verb → String
  | generate artifact => artifact.name
  | check => "check"
  | plan => "plan"

/-- The command that is called so; names are exact. -/
def ofName? (name : String) : Option Verb := all.find? (·.name == name)

/-- The options that may stand behind the name, besides those of the tool. -/
def ownFlags : Verb → List Flag
  | generate _ => [.output]
  | _ => []

end Verb

/-- The options that may stand before the name of the command. -/
def toolFlags : List Flag := [.stem, .denyProblems, .verbose, .help, .version]

/-- The options that may stand behind the name of the command. -/
def verbFlags (verb : Verb) : List Flag :=
  [.stem, .denyProblems, .verbose, .help] ++ verb.ownFlags

structure Given where
  stem : Option String := none
  denyProblems : Bool := false
  verbosity : Nat := 0
  output : Option Path := none
  /-- An option that still needs its value. -/
  awaiting : Option Flag := none
  operands : Array String := #[]
  deriving DecidableEq, Repr

namespace Given

def mark (given : Given) (flag : Flag) : Except Stop Given :=
  match flag with
  | .denyProblems =>
    if given.denyProblems then .error (.usage (.repeated flag))
    else .ok { given with denyProblems := true }
  | .verbose => .ok { given with verbosity := given.verbosity + 1 }
  | .help => .error .help
  | .version => .error .version
  | .stem | .output => .ok { given with awaiting := some flag }

/-- Gives an option and its value. A path must not be empty. -/
def assign (given : Given) (flag : Flag) (value : String) : Except Stop Given :=
  match flag with
  | .stem =>
    if given.stem.isSome then .error (.usage (.repeated flag))
    else .ok { given with stem := some value, awaiting := none }
  | .output =>
    if given.output.isSome then .error (.usage (.repeated flag))
    else if value = "" then .error (.usage (.missingValue flag))
    else .ok { given with output := some ⟨value⟩, awaiting := none }
  | _ => .error (.usage (.unneededValue flag))

def readLong (given : Given) (flags : List Flag) (name : String) (value : Option String) :
    Except Stop Given :=
  match flags.find? (·.name == name), value with
  | none, _ => .error (.usage (.unknownOption s!"--{name}"))
  | some flag, none => given.mark flag
  | some flag, some value => given.assign flag value

/-- The value that is attached to a short option, without an equals sign at its front. -/
def attached (text : List Char) : String :=
  match text with
  | '=' :: value => String.ofList value
  | value => String.ofList value

/-- Reads a cluster of short options. The first that needs a value takes the rest. -/
def readCluster (given : Given) (flags : List Flag) : List Char → Except Stop Given
  | [] => .ok given
  | letter :: rest =>
    match flags.find? (·.letter? == some letter) with
    | none => .error (.usage (.unknownOption s!"-{letter}"))
    | some flag =>
      if flag.takesValue && !rest.isEmpty then given.assign flag (attached rest)
      else do
        let given ← given.mark flag
        given.readCluster flags rest

/-- Adds operands, which must not be empty. -/
def addOperands (given : Given) : List String → Except Stop Given
  | [] => .ok given
  | text :: rest =>
    if text = "" then .error (.usage (.emptyValue "path"))
    else addOperands { given with operands := given.operands.push text } rest

/-- Reads arguments up to the first plain one, and gives that and the ones behind it. -/
def readFront (flags : List Flag) (given : Given) :
    List String → Except Stop (Given × List String)
  | [] =>
    match given.awaiting with
    | some flag => .error (.usage (.missingValue flag))
    | none => .ok (given, [])
  | text :: rest =>
    match given.awaiting, Argument.ofText text with
    | some flag, .plain value => do
      let given ← given.assign flag value
      readFront flags given rest
    | some flag, _ => .error (.usage (.missingValue flag))
    | none, .plain _ => .ok (given, text :: rest)
    | none, .escape =>
      match rest with
      | [] => .ok (given, [])
      | operand :: _ => .error (.usage (.unexpected operand))
    | none, .long name value => do
      let given ← given.readLong flags name value
      readFront flags given rest
    | none, .cluster letters => do
      let given ← given.readCluster flags letters
      readFront flags given rest

/-- Reads all arguments; plain ones are operands, and so is everything behind `--`. -/
def readAll (flags : List Flag) (given : Given) : List String → Except Stop Given
  | [] =>
    match given.awaiting with
    | some flag => .error (.usage (.missingValue flag))
    | none => .ok given
  | text :: rest =>
    match given.awaiting, Argument.ofText text with
    | some flag, .plain value => do
      let given ← given.assign flag value
      readAll flags given rest
    | some flag, _ => .error (.usage (.missingValue flag))
    | none, .plain operand => do
      let given ← given.addOperands [operand]
      readAll flags given rest
    | none, .escape => given.addOperands rest
    | none, .long name value => do
      let given ← given.readLong flags name value
      readAll flags given rest
    | none, .cluster letters => do
      let given ← given.readCluster flags letters
      readAll flags given rest

/-- The settings that the options before and behind the name of the command make together. -/
def settings (before behind : Given) : Settings :=
  { naming :=
      match behind.stem.or before.stem with
      | some stem => ⟨stem⟩
      | none => ({} : Settings).naming
    denyProblems := before.denyProblems || behind.denyProblems }

/-- The verbosity that the options before and behind the name make together. -/
def loudness (before behind : Given) : Nat :=
  if behind.verbosity = 0 then before.verbosity else behind.verbosity

end Given

def ofGiven (verb : Verb) (given : Given) : Except Stop Command :=
  match verb, given.operands.toList with
  | .generate artifact, [] => .ok (generate artifact none given.output)
  | .generate artifact, [input] => .ok (generate artifact (some ⟨input⟩) given.output)
  | .check, [] => .ok (check none)
  | .check, [input] => .ok (check (some ⟨input⟩))
  | .plan, [] => .error (.usage (.missingOperand "<PLAN>"))
  | .plan, [path] => .ok (plan ⟨path⟩)
  | _, _ :: text :: _ => .error (.usage (.unexpected text))

def helpName : String := "help"

/-- Reads the words behind the one that asks for help: nothing, or one name of a command. -/
def readHelp : List String → Stop
  | [] => .help
  | [name] =>
    if name = helpName ∨ (Verb.ofName? name).isSome then .help
    else .usage (.unknownCommand name)
  | _ :: name :: _ => .usage (.unknownCommand name)

end BitFont.Command

namespace BitFont

open Command

/-- Reads a command line, without the name of the program. -/
def Invocation.ofArguments (arguments : List String) : Except Stop Invocation := do
  let (before, rest) ← Given.readFront toolFlags {} arguments
  match rest with
  | [] => throw (.usage .missingCommand)
  | name :: rest =>
    match Verb.ofName? name with
    | none => throw (if name = helpName then readHelp rest else .usage (.unknownCommand name))
    | some verb => do
      let behind ← Given.readAll (verbFlags verb) {} rest
      let command ← ofGiven verb behind
      return {
        command
        settings := before.settings behind
        verbosity := before.loudness behind }

end BitFont
