import ExprScript.Number.Dyadic

/-!
The shortest decimal that reads back as a given number. A number `m * 2 ^ q`
stands for all reals that round to it: the interval between the midpoints to
its two neighbours, ends included when `m` is even. For 1, 2, … digits the
two neighbours of the number on that decimal grid are tried, in exact integer
arithmetic, until one of them lies in the interval.
-/

namespace ExprScript.Number

structure Decimal where
  significand : Nat
  exponent : Int
deriving DecidableEq, Repr

inductive Tie where
  | upward
  | toEven
deriving DecidableEq, Repr

def decimalLength (number : Nat) : Nat :=
  if number = 0 then 0 else (Nat.toDigits 10 number).length

/-- The reals that round to a number, in units of a quarter of its last bit:
the number itself is `centre`, and an end belongs to it if `closed`. -/
structure Interval where
  low : Nat
  centre : Nat
  high : Nat
  closed : Bool

/-- The neighbour below a power of two is only half as far away, except at the
bottom of the range. -/
def Interval.around (mantissa : Nat) (exponent : Int) : Interval :=
  let below := if mantissa = hiddenBit ∧ -1074 < exponent then 1 else 2
  { low := 4 * mantissa - below
    centre := 4 * mantissa
    high := 4 * mantissa + 2
    closed := mantissa % 2 == 0 }

def leadingPlace (mantissa : Nat) (exponent : Int) : Int :=
  let numerator := mantissa <<< exponent.toNat
  let denominator := 1 <<< (-exponent).toNat
  if denominator ≤ numerator then
    decimalLength (numerator / denominator)
  else
    1 - Int.ofNat (decimalLength ((denominator - 1) / numerator))

/-- The decimal with the last digit at `10 ^ place` that lies in the interval
and is nearest to its centre, if there is one. The interval is measured in
units of `2 ^ exponent`. -/
def Interval.nearestOnGrid (interval : Interval) (exponent place : Int) (tie : Tie) :
    Option Nat :=
  let scale := Nat.pow 10 (-place).toNat <<< exponent.toNat
  let unit := Nat.pow 10 place.toNat <<< (-exponent).toNat
  let lower := interval.centre * scale / unit
  let rest := interval.centre * scale % unit
  let inside := fun candidate =>
    let value := candidate * unit
    if interval.closed then
      interval.low * scale ≤ value && value ≤ interval.high * scale
    else
      interval.low * scale < value && value < interval.high * scale
  let preferUpper : Bool :=
    match tie with
    | .upward => decide (unit ≤ 2 * rest)
    | .toEven => unit < 2 * rest || (unit == 2 * rest && lower % 2 == 1)
  match inside lower, inside (lower + 1) with
  | true, true => some (if preferUpper then lower + 1 else lower)
  | true, false => some lower
  | false, true => some (lower + 1)
  | false, false => none

def Decimal.ofGrid (candidate : Nat) (digits : Nat) (place : Int) : Decimal :=
  if candidate = Nat.pow 10 digits then { significand := 1, exponent := place + digits }
  else { significand := candidate, exponent := place }

/-- The decimal with the fewest digits that rounds to `m * 2 ^ q`, for a
positive mantissa; of several, the nearest. Seventeen digits always suffice. -/
def shortest (mantissa : Nat) (exponent : Int) (tie : Tie) : Decimal :=
  let interval := Interval.around mantissa exponent
  let leading := leadingPlace mantissa exponent
  let attempt := fun digits : Nat =>
    (interval.nearestOnGrid (exponent - 2) (leading - digits) tie).map
      fun candidate => Decimal.ofGrid candidate digits (leading - digits)
  ((List.range 17).findSome? fun index => attempt (index + 1)).getD
    { significand := 0, exponent := 0 }

example : shortest hiddenBit (-52) .upward = { significand := 1, exponent := 0 } := by decide
example : shortest 1 (-1074) .upward = { significand := 5, exponent := -324 } := by
  decide +kernel

end ExprScript.Number
