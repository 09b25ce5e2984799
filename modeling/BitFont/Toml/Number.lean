import BitFont.Toml.Text

/-!
# Numbers and dates of a TOML text

Integers have 64 bits and may be written to the bases sixteen, eight and two. Dates and times must
exist in the calendar.
-/

namespace BitFont.Toml.Reader

def isDecimal (c : Char) : Bool := '0' ≤ c && c ≤ '9'

def valueOf (base : Nat) (digits : List Char) : Nat :=
  digits.foldl (fun n c => base * n + (hexValue? c).getD 0) 0

def sign : Reader (List Char) := do
  if ← accept '+' then return ['+']
  else if ← accept '-' then return ['-']
  else return []

/-- Takes the digits of a whole decimal number, which has no leading zeros. -/
def wholeDigits : Reader (List Char) := do
  if ← accept '0' then return ['0'] else digits isDecimal

/-- An integer, if it fits. -/
def integerOf (negative : Bool) (magnitude : Nat) (text : String) : Reader Value :=
  let value : Int := if negative then -magnitude else magnitude
  if -9223372036854775808 ≤ value ∧ value ≤ 9223372036854775807 then return .integer value
  else throw (.invalidNumber text)

/-- Takes an integer with a base, behind the letters that tell it. -/
def basedInteger (base : Nat) (isDigit : Char → Bool) : Reader Value := do
  let found ← digits isDigit
  integerOf false (valueOf base found) (String.ofList found)

/-- Takes an exponent, if there is one. -/
def exponent? : Reader (Option (List Char)) := do
  if ← acceptIf fun c => c == 'e' || c == 'E' then do
    let sign ← sign
    let found ← digits isDecimal
    return some (sign ++ found)
  else return none

/-- Whether digits with a decimal exponent are at least the number from which values round to
infinity. -/
def overflows (mantissa : Nat) (power : Int) : Bool :=
  let limit := Nat.pow 2 1024 - Nat.pow 2 970
  let size : Int := (toString mantissa).length + power
  if mantissa = 0 ∨ size < 300 then false
  else if 320 < size then true
  else if power < 0 then decide (limit * Nat.pow 10 power.natAbs ≤ mantissa)
  else decide (limit ≤ mantissa * Nat.pow 10 power.natAbs)

def powerOf (text : List Char) : Int :=
  match text with
  | '-' :: found => -(valueOf 10 found : Int)
  | '+' :: found => valueOf 10 found
  | found => valueOf 10 found

/-- A number with a fraction or an exponent. Only negative numbers may be too large. -/
def floatOf (sign whole fraction exponent : List Char) : Reader Value :=
  let text := String.ofList (sign ++ whole ++ ['.'] ++ fraction ++ ['e'] ++ exponent)
  let mantissa := valueOf 10 (whole ++ fraction)
  if sign ≠ ['-'] ∧ overflows mantissa (powerOf exponent - fraction.length) then
    throw (.invalidNumber text)
  else return .float text

def decimal : Reader Value := do
  let sign ← sign
  if ← acceptAll "inf" then return .float (String.ofList sign ++ "inf")
  if ← acceptAll "nan" then return .float (String.ofList sign ++ "nan")
  let whole ← wholeDigits
  if ← accept '.' then do
    let fraction ← digits isDecimal
    let exponent ← exponent?
    floatOf sign whole fraction (exponent.getD [])
  else do
    match ← exponent? with
    | some exponent => floatOf sign whole [] exponent
    | none => integerOf (sign == ['-']) (valueOf 10 whole) (String.ofList (sign ++ whole))

def fixedDigits? (count : Nat) : Reader (Option Nat) := do
  let text ← get
  let found := text.take count
  if found.length = count ∧ found.all isDecimal then do
    set (text.drop count)
    return some (valueOf 10 found)
  else return none

/-- Takes exactly so many digits, whose value must lie in a range. -/
def fixedBetween (count low high : Nat) : Reader Nat := do
  match ← fixedDigits? count with
  | none => fail
  | some value =>
    if low ≤ value ∧ value ≤ high then return value else throw (.invalidDate (toString value))

def isLeapYear (year : Nat) : Bool :=
  year % 4 == 0 && (year % 100 != 0 || year % 400 == 0)

def daysIn (year month : Nat) : Nat :=
  if month = 2 then if isLeapYear year then 29 else 28
  else if month ∈ [4, 6, 9, 11] then 30
  else 31

/-- Takes the rest of a date, behind its year and the first dash. -/
def dateRest (year : Nat) : Reader Unit := do
  let month ← fixedBetween 2 1 12
  expect '-'
  let _ ← fixedBetween 2 1 (daysIn year month)

/-- Takes the rest of a time of day, behind its hour and the first colon. -/
def timeRest : Reader Unit := do
  let _ ← fixedBetween 2 0 59
  expect ':'
  let _ ← fixedBetween 2 0 60
  if ← accept '.' then
    let found ← takeWhile isDecimal
    if found.isEmpty then fail

/-- Takes the distance from universal time, if there is one. -/
def zone : Reader Unit := do
  if ← acceptIf fun c => c == 'Z' || c == 'z' then return ()
  let sign ← sign
  if sign.isEmpty then return ()
  let _ ← fixedBetween 2 0 23
  expect ':'
  let _ ← fixedBetween 2 0 59

/-- Takes so many digits and the separator behind them; takes nothing if they are not there. -/
def leading? (count : Nat) (separator : Char) : Reader (Option Nat) := do
  let text ← get
  match ← fixedDigits? count with
  | none => return none
  | some value =>
    if ← accept separator then return some value
    else do
      set text
      return none

/-- Takes the hour of a time of day, if one is next. -/
def hour? : Reader Bool := do
  match ← leading? 2 ':' with
  | none => return false
  | some hour => if hour ≤ 23 then return true else throw (.invalidDate (toString hour))

/-- Takes the time behind a date, if there is one. -/
def timeBehindDate : Reader Unit := do
  let text ← get
  if ← acceptIf fun c => c == 'T' || c == 't' || c == ' ' then do
    if ← hour? then do
      timeRest
      zone
    else set text

/-- The characters that were taken since the text was `before`. -/
def takenSince (before : List Char) : Reader String := do
  return String.ofList (before.take (before.length - (← get).length))

/-- Takes a date or a time of day, if one is next. -/
def dateTime? : Reader (Option Value) := do
  let before ← get
  match ← leading? 4 '-' with
  | some year => do
    dateRest year
    timeBehindDate
    return some (.dateTime (← takenSince before))
  | none =>
    if ← hour? then do
      timeRest
      return some (.dateTime (← takenSince before))
    else return none

def number : Reader Value := do
  if ← acceptAll "0x" then basedInteger 16 (fun c => (hexValue? c).isSome)
  else if ← acceptAll "0o" then basedInteger 8 (fun c => '0' ≤ c && c ≤ '7')
  else if ← acceptAll "0b" then basedInteger 2 (fun c => c == '0' || c == '1')
  else do
    match ← dateTime? with
    | some value => return value
    | none => decimal

end BitFont.Toml.Reader
