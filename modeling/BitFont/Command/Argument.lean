/-!
# Arguments

The forms that one argument of a command line can have. `--` ends the options, `--name` and
`--name=value` are long options, and a dash with letters is a cluster of short ones. A single dash
is plain text.
-/

namespace BitFont.Command

/-- One argument by its form. -/
inductive Argument where
  | plain (text : String)
  | escape
  | long (name : String) (value : Option String)
  | cluster (letters : List Char)
  deriving DecidableEq, Repr

/-- Cuts a long option at its first equals sign. -/
def Argument.ofLong (body : List Char) : Argument :=
  let name := String.ofList (body.takeWhile (· != '='))
  match body.dropWhile (· != '=') with
  | [] => .long name none
  | _ :: value => .long name (some (String.ofList value))

/-- The form of an argument. -/
def Argument.ofText (text : String) : Argument :=
  match text.toList with
  | ['-'] => .plain text
  | ['-', '-'] => .escape
  | '-' :: '-' :: body => ofLong body
  | '-' :: letters => .cluster letters
  | _ => .plain text

inductive Flag where
  | stem
  | denyProblems
  | verbose
  | output
  | help
  | version
  deriving DecidableEq, Repr

namespace Flag

/-- The name of a flag behind two dashes. -/
def name : Flag → String
  | stem => "prefix"
  | denyProblems => "deny-diagnostics"
  | verbose => "verbose"
  | output => "output"
  | help => "help"
  | version => "version"

/-- The letter of a flag behind one dash. -/
def letter? : Flag → Option Char
  | stem => none
  | denyProblems => none
  | verbose => some 'v'
  | output => some 'o'
  | help => some 'h'
  | version => some 'V'

/-- Whether a flag needs a value. -/
def takesValue : Flag → Bool
  | stem => true
  | output => true
  | _ => false

end Flag

end BitFont.Command
