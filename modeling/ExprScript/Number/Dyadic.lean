/-!
Finite binary64 numbers as exact products of an integer and a power of two.
All exact arithmetic of the library starts from this decoding.
-/

namespace ExprScript.Number

structure Dyadic where
  negative : Bool
  mantissa : Nat
  exponent : Int
deriving DecidableEq, Repr

def hiddenBit : Nat := 1 <<< 52

namespace Dyadic

/-- The exact value of a finite number. Subnormal numbers share the least
exponent with the smallest normal ones. -/
def ofFloat (number : Float) : Dyadic :=
  let bits := number.toBits.toNat
  let field := (bits >>> 52) % 2048
  let fraction := bits % hiddenBit
  { negative := bits >>> 63 == 1
    mantissa := if field = 0 then fraction else hiddenBit + fraction
    exponent := Int.ofNat (max field 1) - 1075 }

def toFloat (value : Dyadic) : Float :=
  let sign := if value.negative then 1 <<< 63 else 0
  if value.mantissa = 0 then
    Float.ofBits (UInt64.ofNat sign)
  else
    let width := Int.ofNat (value.mantissa.log2 + 1)
    let exponent := max (-1074) (value.exponent + width - 53)
    let mantissa :=
      if exponent ≤ value.exponent then
        value.mantissa <<< (value.exponent - exponent).toNat
      else
        value.mantissa >>> (exponent - value.exponent).toNat
    let field := if mantissa < hiddenBit then 0 else (exponent + 1075).toNat
    Float.ofBits (UInt64.ofNat (sign + field * hiddenBit + mantissa % hiddenBit))

def truncate (value : Dyadic) : Int :=
  let magnitude :=
    if 0 ≤ value.exponent then
      value.mantissa <<< value.exponent.toNat
    else
      value.mantissa >>> (-value.exponent).toNat
  if value.negative then -Int.ofNat magnitude else Int.ofNat magnitude

example : ofFloat 1.0 = { negative := false, mantissa := hiddenBit, exponent := -52 } := by decide
example : (ofFloat (-2.75)).truncate = -2 := by decide
example : (toFloat (ofFloat 0.1)).toBits = (0.1 : Float).toBits := by decide

end Dyadic

def hasSign (number : Float) : Bool := (Dyadic.ofFloat number).negative

def nan : Float := 0.0 / 0.0

def infinity : Float := 1.0 / 0.0

end ExprScript.Number
