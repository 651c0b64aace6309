import ExprScript.Number.Remainder

/-!
Numbers as integers of 32 bits, for the bitwise operators. A number loses its
fraction and is reduced modulo `2 ^ 32`; the reduced number is then held as an
integer without a sign, or its upper half stands for the negative ones.
-/

namespace ExprScript.Number

def Dyadic.whole (value : Dyadic) : Dyadic :=
  if 0 ≤ value.exponent then value
  else { value with mantissa := value.mantissa >>> (-value.exponent).toNat, exponent := 0 }

def truncate (number : Float) : Float := (Dyadic.ofFloat number).whole.toFloat

def euclideanRemainder (dividend divisor : Float) : Float :=
  let rest := remainder dividend divisor
  if rest < 0.0 then rest + divisor.abs else rest

def twoTo31 : Float := 2147483648.0

def twoTo32 : Float := 4294967296.0

/-- The number as an integer from `0` up to `2 ^ 32 - 1`; zero for the numbers
that are not finite. -/
def toUnsigned (number : Float) : UInt32 :=
  if number.isFinite then (euclideanRemainder (truncate number) twoTo32).toUInt32 else 0

def clampSigned (number : Float) : Int32 := number.toModel.toInt32

/-- The number as an integer from `-2 ^ 31` up to `2 ^ 31 - 1`; zero for the
numbers that are not finite. -/
def toSigned (number : Float) : Int32 :=
  if number.isFinite then
    let rest := euclideanRemainder (truncate number) twoTo32
    if twoTo31 ≤ rest then clampSigned (rest - twoTo32) else clampSigned rest
  else 0

def ofSigned (integer : Int32) : Float := Float.ofInt integer.toInt

def ofUnsigned (integer : UInt32) : Float := Float.ofNat integer.toNat

def shiftCount (number : Float) : UInt32 := toUnsigned number &&& 31

example : toUnsigned (-1.0) = 4294967295 := by decide
example : toSigned 4294967298.5 = 2 := by decide
example : toSigned 2147483648.0 = -2147483648 := by decide

end ExprScript.Number
