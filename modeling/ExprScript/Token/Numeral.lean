import ExprScript.Number.Reading
import ExprScript.Source.Cursor
import ExprScript.Text.Identifier

/-!
Numbers as they are written in a source text.
-/

namespace ExprScript.Reader

/-- Reads a run of digits with single underscores between them, and returns
the digits alone. -/
def readDigits (radix : Nat) : Reader (List Char) := do
  let reversed ← loop (fun (reversed, afterSeparator) => do
    match ← peek? with
    | some c =>
      if c == '_' then
        if reversed.isEmpty then fail .separatorNotAllowed (← position)
        if afterSeparator then fail .repeatedSeparator (← position)
        skip
        return .again (reversed, true)
      else if Number.isDigitOf radix c then
        skip
        return .again (c :: reversed, false)
      else if afterSeparator then fail .trailingSeparator (← position)
      else return .done reversed
    | none =>
      if afterSeparator then fail .trailingSeparator (← position)
      return .done reversed) (([] : List Char), false)
  return reversed.reverse

def readFraction : Reader (List Char) := do
  if (← peek?) == some '.' then
    skip
    readDigits 10
  else return []

def readSign : Reader Bool := do
  match ← peek? with
  | some '-' => skip; return true
  | some '+' => skip; return false
  | _ => return false

def readExponent : Reader Int := do
  let start ← position
  match ← peek? with
  | some c =>
    if c == 'e' || c == 'E' then
      skip
      let negative ← readSign
      let digits ← readDigits 10
      if digits.isEmpty then fail .invalidToken start
      let value := Int.ofNat (Number.exponentOfDigits digits)
      return if negative then -value else value
    else return 0
  | none => return 0

def readDecimalTail (whole : List Char) : Reader Float := do
  let fraction ← readFraction
  let exponent ← readExponent
  return Number.DecimalText.toFloat { whole, fraction, exponent }

def readDecimal : Reader Float := do
  let whole ← if (← peek?) == some '.' then pure ['0'] else readDigits 10
  readDecimalTail whole

def readRadixNumeral (radix : Nat) (start : Position) : Reader Float := do
  skip
  skip
  let digits ← readDigits radix
  if digits.isEmpty then fail .invalidToken start
  return Number.ofRadixDigits radix digits

def skipMany : Nat → Reader Unit
  | 0 => return
  | count + 1 => do
    skip
    skipMany count

/-- A number with a leading zero: octal if all its digits are, and otherwise
decimal. -/
def readZeroNumeral : Reader Float := do
  let run := (← get).rest.takeWhile Char.isDigit
  skipMany run.length
  if run.all (Number.isDigitOf 8) then
    return Number.ofRadixDigits 8 run
  else
    if (← peek?) == some '_' then fail .separatorNotAllowed (← position)
    readDecimalTail run

/-- Reads the number at the cursor. The flag is set for a number with a leading
zero. -/
def readNumeralBody (start : Position) : Reader (Float × Bool) := do
  if (← peek?) != some '0' then return (← readDecimal, false)
  match ← peekSecond? with
  | none => return (← readDecimal, false)
  | some mark =>
    match Number.radixOfMark? mark with
    | some radix => return (← readRadixNumeral radix start, false)
    | none =>
      if mark == '_' then
        skip
        fail .separatorAfterZero (← position)
      else if mark.isDigit then return (← readZeroNumeral, true)
      else return (← readDecimal, false)

def readNumeral (start : Position) : Reader (Float × Bool) := do
  let result ← readNumeralBody start
  if (← peek?).any fun c => Text.isNameStart c || c.isDigit || c == '\\' then
    fail .invalidToken start
  return result

end ExprScript.Reader
