import ExprScript.Number.Shortest
import ExprScript.Text.Blank

/-!
From text to numbers: decimal notation, integers of another radix, and the
conversion of a whole text to a number.
-/

namespace ExprScript.Number

def digitValue? (radix : Nat) (c : Char) : Option Nat :=
  let value? :=
    if '0' ≤ c && c ≤ '9' then some (c.toNat - '0'.toNat)
    else if 'a' ≤ c && c ≤ 'z' then some (c.toNat - 'a'.toNat + 10)
    else if 'A' ≤ c && c ≤ 'Z' then some (c.toNat - 'A'.toNat + 10)
    else none
  value?.filter (· < radix)

def isDigitOf (radix : Nat) (c : Char) : Bool := (digitValue? radix c).isSome

def digitsToNat (radix : Nat) (digits : List Char) : Nat :=
  digits.foldl (fun value c => value * radix + (digitValue? radix c).getD 0) 0

def ofRadixDigits (radix : Nat) (digits : List Char) : Float :=
  digits.foldl
    (fun value c => value * Float.ofNat radix + Float.ofNat ((digitValue? radix c).getD 0)) 0.0

/-- The number nearest to a decimal. Decimals far outside of the range are
decided by their size alone, so that no large power of ten is computed: an
integer with the leading bit `2 ^ b` is at least `10 ^ (3 * b / 10)` and below
`10 ^ (b / 3 + 1)`. -/
def Decimal.toFloat (decimal : Decimal) : Float :=
  let bit := decimal.significand.log2
  if decimal.significand = 0 || Int.ofNat (bit / 3 + 1) + decimal.exponent < -400 then 0.0
  else if 400 < Int.ofNat (3 * bit / 10) + decimal.exponent then infinity
  else Float.ofScientific decimal.significand (decimal.exponent < 0) decimal.exponent.natAbs

/-- The parts of decimal notation: digits before and after the point, and the
exponent. -/
structure DecimalText where
  whole : List Char
  fraction : List Char := []
  exponent : Int := 0

def DecimalText.toFloat (text : DecimalText) : Float :=
  Decimal.toFloat
    { significand := digitsToNat 10 (text.whole ++ text.fraction)
      exponent := text.exponent - text.fraction.length }

def splitSign : List Char → Bool × List Char
  | '-' :: rest => (true, rest)
  | '+' :: rest => (false, rest)
  | rest => (false, rest)

def exponentLimit : Nat := 65536

/-- The size of a written exponent. No digit is added to one that has reached
the limit, so it stays within ten times the limit however long it is written. -/
def exponentOfDigits (digits : List Char) : Nat :=
  digits.foldl
    (fun value c =>
      if value < exponentLimit then value * 10 + (digitValue? 10 c).getD 0 else value) 0

example : exponentOfDigits "000308".toList = 308 := by decide
example : exponentOfDigits "655361".toList = 65536 := by decide

def readExponent? (text : List Char) : Option Int :=
  match text with
  | [] => some 0
  | mark :: rest =>
    if mark == 'e' || mark == 'E' then
      let (negative, digits) := splitSign rest
      if digits.isEmpty || !digits.all Char.isDigit then none
      else
        let value := Int.ofNat (exponentOfDigits digits)
        some (if negative then -value else value)
    else none

/-- Decimal notation without a sign. There has to be a digit before or after
the point. -/
def readUnsigned? (text : List Char) : Option Float :=
  let whole := text.takeWhile Char.isDigit
  let rest := text.dropWhile Char.isDigit
  let (fraction, tail) :=
    match rest with
    | '.' :: digits => (digits.takeWhile Char.isDigit, digits.dropWhile Char.isDigit)
    | _ => ([], rest)
  if whole.isEmpty && fraction.isEmpty then none
  else
    (readExponent? tail).map fun exponent =>
      DecimalText.toFloat { whole, fraction, exponent }

def readDecimal? (text : List Char) : Option Float :=
  let (negative, digits) := splitSign text
  (readUnsigned? digits).map fun number => if negative then -number else number

def radixOfMark? (c : Char) : Option Nat :=
  if c == 'x' || c == 'X' then some 16
  else if c == 'o' || c == 'O' then some 8
  else if c == 'b' || c == 'B' then some 2
  else none

def readTrimmed (text : List Char) : Float :=
  let decimal := (readDecimal? text).getD nan
  match text with
  | '0' :: mark :: digits =>
    match radixOfMark? mark with
    | some radix =>
      if digits.isEmpty || !digits.all (isDigitOf radix) then nan
      else ofRadixDigits radix digits
    | none => decimal
  | _ => decimal

/-- The number that a whole text denotes. Blanks at the ends are ignored, an
empty text is zero, and a text that is no number at all gives NaN. -/
def ofText (text : String) : Float :=
  let trimmed := Text.trimBoth (fun c => Text.isWhiteSpace c || c == '\ufeff') text
  if trimmed == "" then 0.0
  else if trimmed == "Infinity" || trimmed == "+Infinity" then infinity
  else if trimmed == "-Infinity" then -infinity
  else readTrimmed trimmed.toList

end ExprScript.Number
