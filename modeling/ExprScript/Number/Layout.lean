import ExprScript.Number.Shortest

/-!
How a number is written. The digits are always the shortest ones; a layout
says where positional notation ends and how the parts are joined.
-/

namespace ExprScript.Number

/-- The decisions of a written form. A number with the digits `d1 … dk` and
the point at `p` has the value `0.d1 … dk * 10 ^ p`. -/
structure Layout where
  /-- Positional notation is used while the point is greater than this. -/
  lowestPoint : Int
  /-- Positional notation is used while the point is at most this. -/
  highestPoint : Int
  /-- Whole numbers in positional notation end in `.0`. -/
  keepFraction : Bool
  /-- An exponent that is not negative has a plus sign. -/
  plusSign : Bool
  /-- The zero with a sign is written with it. -/
  signedZero : Bool
  tie : Tie
  nanText : String
  infinityText : String

namespace Layout

def zeros (count : Nat) : List Char := List.replicate count '0'

def exponentText (layout : Layout) (exponent : Int) : List Char :=
  let sign := if exponent < 0 then ['-'] else if layout.plusSign then ['+'] else []
  'e' :: sign ++ Nat.toDigits 10 exponent.natAbs

def place (layout : Layout) (digits : List Char) (point : Int) : List Char :=
  if layout.lowestPoint < point ∧ point ≤ layout.highestPoint then
    if digits.length ≤ point then
      digits ++ zeros (point.toNat - digits.length) ++
        (if layout.keepFraction then ['.', '0'] else [])
    else if 0 < point then
      digits.take point.toNat ++ '.' :: digits.drop point.toNat
    else
      '0' :: '.' :: zeros (-point).toNat ++ digits
  else
    let fraction := if digits.length ≤ 1 then [] else '.' :: digits.drop 1
    digits.take 1 ++ fraction ++ layout.exponentText (point - 1)

def digitsAndPoint (decimal : Decimal) : List Char × Int :=
  let digits := Nat.toDigits 10 decimal.significand
  (digits, decimal.exponent + digits.length)

def write (layout : Layout) (number : Float) : String :=
  if number.isNaN then layout.nanText
  else if number == 0.0 then
    let sign := if layout.signedZero && hasSign number then ['-'] else []
    String.ofList (sign ++ layout.place ['0'] 1)
  else
    let sign := if hasSign number then "-" else ""
    if number.isInf then sign ++ layout.infinityText
    else
      let value := Dyadic.ofFloat number
      let (digits, point) :=
        digitsAndPoint (shortest value.mantissa value.exponent layout.tie)
      sign ++ String.ofList (layout.place digits point)

end Layout

/-- Numbers of the language: positional from `1e-7` up to twenty-one digits,
and the two zeros look alike. -/
def standard : Layout :=
  { lowestPoint := -6, highestPoint := 21, keepFraction := false, plusSign := true,
    signedZero := false, tie := .upward, nanText := "NaN", infinityText := "Infinity" }

/-- Numbers in the diagnostic form of a value, where a number is always seen
to be one that may have a fraction. -/
def diagnostic : Layout :=
  { lowestPoint := -4, highestPoint := 16, keepFraction := true, plusSign := false,
    signedZero := true, tie := .upward, nanText := "NaN", infinityText := "inf" }

def compact : Layout :=
  { lowestPoint := -5, highestPoint := 16, keepFraction := true, plusSign := true,
    signedZero := true, tie := .toEven, nanText := "null", infinityText := "null" }

def toText (number : Float) : String := standard.write number

end ExprScript.Number
