import BitFont.Command.Reader

/-!
# The tool

The tool reads its command line and does what it says. It answers with an exit code, the text for
the standard output, and the words of a failure.
-/

namespace BitFont

structure Response where
  code : Nat
  output : String := ""
  complaint : Option String := none
  deriving DecidableEq, Repr

namespace Response

def version : String := "rune-codegen 0.1.0\n"

def help : String :=
  "Usage: codegen [OPTIONS] <COMMAND>\n\n" ++
  "Commands:\n" ++
  "  header [INPUT] [-o OUTPUT]  Write the declarations of all glyphs\n" ++
  "  data [INPUT] [-o OUTPUT]    Write the tables of all glyphs\n" ++
  "  check [INPUT]               Compile the input and report problems\n" ++
  "  plan <PLAN>                 Generate every file of a plan\n\n" ++
  "Options:\n" ++
  "      --prefix <PREFIX>   Begin every name with this [default: RUNE]\n" ++
  "      --deny-diagnostics  Fail if the input has any problems\n" ++
  "  -v, --verbose           Say more; may be repeated\n" ++
  "  -h, --help              Print help\n" ++
  "  -V, --version           Print version\n"

/-- The answer to a command line that is no invocation. -/
def ofStop : Command.Stop → Response
  | .usage fault => { code := 2, complaint := some s!"error: {fault.message}" }
  | .help => { code := 0, output := help }
  | .version => { code := 0, output := version }

def ofResult : Except Failure String → Response
  | .ok output => { code := 0, output }
  | .error failure => { code := 1, complaint := some s!"Error: {failure.message}" }

end Response

def Invocation.run {m : Type → Type} [Monad m] [Host m] (invocation : Invocation) : m Response := do
  let result ← (invocation.command.run invocation.settings).run
  return Response.ofResult result

def Response.ofArguments {m : Type → Type} [Monad m] [Host m] (arguments : List String) :
    m Response :=
  match Invocation.ofArguments arguments with
  | .error stop => pure (ofStop stop)
  | .ok invocation => invocation.run

end BitFont
