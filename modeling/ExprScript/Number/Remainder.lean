import ExprScript.Number.Dyadic

/-!
The remainder of a truncating division, computed without rounding.
-/

namespace ExprScript.Number

/-- The remainder of two finite values, the second not zero. It has the sign
of the first and is smaller in magnitude than the second. -/
def Dyadic.remainder (dividend divisor : Dyadic) : Dyadic :=
  let exponent := min dividend.exponent divisor.exponent
  let scaled := dividend.mantissa <<< (dividend.exponent - exponent).toNat
  let modulus := divisor.mantissa <<< (divisor.exponent - exponent).toNat
  { negative := dividend.negative, mantissa := scaled % modulus, exponent }

def remainder (dividend divisor : Float) : Float :=
  if dividend.isNaN || divisor.isNaN || dividend.isInf || divisor == 0.0 then nan
  else if divisor.isInf then dividend
  else ((Dyadic.ofFloat dividend).remainder (Dyadic.ofFloat divisor)).toFloat

example : (remainder (-7.5) 2.0).toBits = (-1.5 : Float).toBits := by decide

end ExprScript.Number
