/-!
# Decimal numerals of sixteen bits

A numeral is an optional plus sign and decimal digits, read from the left. The first character
that is no digit makes it invalid, and the first digit that takes the value past 65535 makes it
too large: whichever comes first decides.
-/

namespace BitFont.Numeral

def limit : Nat := 65535

inductive Fault where
  | invalidDigit
  | tooLarge
  deriving DecidableEq, Repr

def Fault.message : Fault → String
  | .invalidDigit => "invalid digit found in string"
  | .tooLarge => "number too large to fit in target type"

def digit? (c : Char) : Option Nat :=
  if '0' ≤ c ∧ c ≤ '9' then some (c.toNat - '0'.toNat) else none

/-- Reads digits onto the value read so far. -/
def readDigits (value : Nat) : List Char → Except Fault Nat
  | [] => .ok value
  | c :: rest =>
    match digit? c with
    | none => .error .invalidDigit
    | some d =>
      if limit < 10 * value + d then .error .tooLarge else readDigits (10 * value + d) rest

/-- Reads a word. A sign needs a digit behind it, and only a plus sign may stand there. -/
def read (word : String) : Except Fault Nat :=
  match word.toList with
  | [] => .error .invalidDigit
  | ['+'] => .error .invalidDigit
  | '+' :: digits => readDigits 0 digits
  | digits => readDigits 0 digits

end BitFont.Numeral
