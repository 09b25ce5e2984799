import BitFont.Plan.Run

/-!
# Commands

What the tool can be told to do, and how it does it. A command that ends well gives the text for
the standard output.
-/

namespace BitFont

inductive Command where
  /-- Generates an artifact, into a file or onto the standard output. -/
  | generate (artifact : Artifact) (input output : Option Path)
  | check (input : Option Path)
  | plan (path : Path)
  deriving DecidableEq, Repr

structure Invocation where
  command : Command
  settings : Settings := {}
  /-- How many levels of notices to hear in addition. -/
  verbosity : Nat := 0
  deriving DecidableEq, Repr

/-- The rank up to which notices are heard: warnings always, all but the trace at most. -/
def Invocation.rank (invocation : Invocation) : Nat :=
  match invocation.verbosity with
  | 0 => Level.warn.rank
  | 1 => Level.info.rank
  | _ => Level.debug.rank

namespace Command

def summary (name : String) (compilation : Compilation) : String :=
  s!"{name}: {compilation.layout.length} glyphs, {compilation.totalSize} bytes of data, " ++
    s!"{compilation.diagnostics.length} problem(s)\n"

variable {m : Type → Type} [Monad m] [Host m]

def runCheck (input : Option Path) (settings : Settings) : Action m String := do
  let source ← Source.read input
  let compilation ← Action.deliver (source.compile settings)
  return summary source.name compilation

/-- Generates an artifact. Without a path for it, the text is the output. -/
def runGenerate (artifact : Artifact) (input output : Option Path) (settings : Settings) :
    Action m String := do
  let text ← Source.readAndGenerate input artifact settings
  match output with
  | none => return text
  | some path => do
    Plan.writeOut path text
    return ""

def runPlan (path : Path) (settings : Settings) : Action m String := do
  let plan ← Plan.load path
  plan.run settings
  return ""

def run (command : Command) (settings : Settings) : Action m String :=
  match command with
  | generate artifact input output => runGenerate artifact input output settings
  | check input => runCheck input settings
  | plan path => runPlan path settings

end Command

end BitFont
