import ExprScript.Number.Word
import ExprScript.Proofs.Number.Exact

/-! # Integer parts and remainders

Dropping the fraction of a number and taking the remainder of a division need no rounding,
and neither do the conversions to integers and back.
-/

namespace ExprScript.Number

open Float.Model Float.Model.UnpackedFloat

def truncation (rational : ℚ) : Int := if rational < 0 then ⌈rational⌉ else ⌊rational⌋

theorem truncation_of_nonneg {rational : ℚ} (nonneg : 0 ≤ rational) :
    truncation rational = ⌊rational⌋ := if_neg nonneg.not_gt

theorem truncation_neg (rational : ℚ) : truncation (-rational) = -truncation rational := by
  unfold truncation
  rcases lt_trichotomy rational 0 with below | rfl | above
  · rw [if_pos below, if_neg (by linarith), Int.floor_neg]
  · simp
  · rw [if_neg above.not_gt, if_pos (by linarith), Int.ceil_neg]

theorem truncation_intCast (integer : Int) : truncation integer = integer := by
  unfold truncation
  split
  · exact Int.ceil_intCast integer
  · exact Int.floor_intCast integer

theorem truncation_div (dividend : Int) {divisor : Nat} (positive : 0 < divisor) :
    truncation (dividend / divisor) = dividend.tdiv divisor := by
  have some : (0 : ℚ) < divisor := Nat.cast_pos.mpr positive
  have whole : ∀ dividend : Nat, truncation (dividend / divisor) = (dividend / divisor : Nat) := by
    intro dividend
    rw [truncation_of_nonneg (by positivity), Rat.floor_natCast_div_natCast]
    rfl
  rcases dividend with dividend | dividend
  · exact whole dividend
  · have opposite : ((Int.negSucc dividend : Int) / divisor : ℚ) =
        -((dividend + 1 : Nat) / divisor : ℚ) := by
      rw [Int.cast_negSucc, neg_div]
    rw [opposite, truncation_neg, whole]
    rfl

/-! ## The integer part of a number -/

theorem truncation_apply (sign : Sign) (mantissa : Nat) (exponent : Int) :
    truncation (sign.apply mantissa * 2 ^ exponent) =
      sign.apply (mantissa * 2 ^ exponent.toNat / 2 ^ (-exponent).toNat : Nat) := by
  have positive : truncation (mantissa * 2 ^ exponent) =
      (mantissa * 2 ^ exponent.toNat / 2 ^ (-exponent).toNat : Nat) := by
    rw [zpow_eq_div two_ne_zero, mul_div_assoc']
    have quotient := truncation_div (mantissa * 2 ^ exponent.toNat : Nat)
      (Nat.two_pow_pos (-exponent).toNat)
    push_cast at quotient
    rw [quotient]
    rfl
  cases sign with
  | positive => exact positive
  | negative =>
      simp only [Sign.apply] at positive ⊢
      rw [← positive, ← truncation_neg]
      push_cast
      rw [neg_mul]

namespace Dyadic

theorem value_whole (value : Dyadic) : value.whole.value = truncation value.value := by
  rcases value with ⟨negative, mantissa, exponent⟩
  rw [Dyadic.value, Dyadic.value, truncation_apply, whole]
  dsimp only
  split
  · next above =>
      have power : (2 : ℚ) ^ exponent = (2 ^ exponent.toNat : Nat) := by
        conv_lhs => rw [← Int.toNat_of_nonneg above, zpow_natCast]
        push_cast
        rfl
      rw [Int.toNat_of_nonpos (by omega : -exponent ≤ 0), Nat.pow_zero, Nat.div_one, power]
      cases negative <;> simp [Sign.apply]
  · next below =>
      rw [Int.toNat_of_nonpos (by omega : exponent ≤ 0), Nat.pow_zero, Nat.mul_one,
        Nat.shiftRight_eq_div_pow, zpow_zero, mul_one]

end Dyadic

theorem mantissa_shiftRight (extended : ExtendedMantissa) (shift : Nat) :
    (extended >>> shift).mantissa = extended.mantissa / 2 ^ shift := by
  change (shift.repeat ExtendedMantissa.shiftRightOne extended).mantissa = _
  induction shift with
  | zero => exact (Nat.div_one _).symm
  | succ shift induction =>
      rw [Nat.repeat, ExtendedMantissa.shiftRightOne, induction, Nat.div_div_eq_div_mul,
        Nat.pow_succ]

theorem Exactly.toInt_eq {number : Float} {rational : ℚ} (exactly : Exactly number rational)
    (lowest highest : Int) :
    number.toModel.unpack.toInt lowest highest = truncation rational := by
  rcases exactly with ⟨finite, rfl⟩
  unfold value
  rcases unpack_finite finite with ⟨unpacked, -⟩ | ⟨canonical, unpacked⟩
  · rw [unpacked]
    exact (truncation_intCast 0).symm
  · rw [unpacked, unpackedValue, truncation_apply]
    simp only [UnpackedFloat.toInt, roundToInt, decreaseExponent, shiftToExponent,
      mantissa_shiftRight, mantissa_ofMantissaAndAccuracy, Nat.shiftLeft_eq, Int.sub_zero]
    congr 4
    omega

theorem exponent_le_of_isFinite {number : Float} (finite : number.isFinite = true) :
    (Dyadic.ofFloat number).exponent ≤ 971 := by
  rcases unpack_finite finite with ⟨unpacked, -⟩ | ⟨canonical, -⟩
  · have same : .ofModel (.pack number.toModel.unpack) = number :=
      eq_of_toBits (pack_unpack_of_valid number.toModel.valid)
    rw [← same, unpacked]
    cases hasSign number <;> decide
  · exact canonical.high

theorem Exactly.truncate {number : Float} {rational : ℚ} (exactly : Exactly number rational) :
    Exactly (truncate number) (truncation rational) := by
  rcases exactly with ⟨finite, rfl⟩
  rw [(exactly_ofFloat finite).denotes, ← Dyadic.value_whole]
  rcases Dyadic.ofFloat_bounds number with ⟨small, low, -⟩
  have high := exponent_le_of_isFinite finite
  unfold Number.truncate Dyadic.whole
  generalize Dyadic.ofFloat number = dyadic at *
  split
  · exact Dyadic.exactly_toFloat small low high
  · apply Dyadic.exactly_toFloat
    · exact Nat.lt_of_le_of_lt (Nat.shiftRight_le _ _) small
    · exact (by decide : (-1074 : Int) ≤ 0)
    · exact (by decide : (0 : Int) ≤ 971)

/-! ## Remainders -/

def modulo (dividend divisor : ℚ) : ℚ := dividend - divisor * truncation (dividend / divisor)

theorem modulo_intCast (dividend : Int) {divisor : Nat} (positive : 0 < divisor) :
    modulo dividend divisor = dividend.tmod divisor := by
  rw [modulo, truncation_div dividend positive]
  have parts := Int.mul_tdiv_add_tmod dividend divisor
  have parts : ((divisor * dividend.tdiv divisor + dividend.tmod divisor : Int) : ℚ) = dividend :=
    congrArg Int.cast parts
  push_cast at parts
  linarith

theorem modulo_apply (sign sign' : Sign) (dividend divisor : ℚ) :
    modulo (sign.apply 1 * dividend) (sign'.apply 1 * divisor) =
      sign.apply 1 * modulo dividend divisor := by
  unfold modulo
  cases sign <;> cases sign' <;>
    simp only [Sign.apply, Int.cast_neg, Int.cast_one, neg_mul, one_mul, neg_div, div_neg, neg_neg,
      truncation_neg] <;>
    ring

theorem modulo_mul (dividend divisor : ℚ) {factor : ℚ} (nonzero : factor ≠ 0) :
    modulo (dividend * factor) (divisor * factor) = modulo dividend divisor * factor := by
  rw [modulo, modulo, mul_div_mul_right _ _ nonzero]
  ring

theorem cast_apply (sign : Sign) (integer : Int) :
    (sign.apply integer : ℚ) = sign.apply 1 * integer := by
  cases sign <;> simp [Sign.apply]

theorem shiftLeft_value (mantissa : Nat) {exponent target : Int} (within : target ≤ exponent) :
    ((mantissa <<< (exponent - target).toNat : Nat) : ℚ) * 2 ^ target = mantissa * 2 ^ exponent :=
  apply_decreaseExponent .positive mantissa within

theorem Dyadic.value_remainder (dividend divisor : Dyadic) (positive : 0 < divisor.mantissa) :
    (dividend.remainder divisor).value = modulo dividend.value divisor.value := by
  rcases dividend with ⟨negative, mantissa, exponent⟩
  rcases divisor with ⟨negative', mantissa', exponent'⟩
  dsimp only at positive
  simp only [Dyadic.remainder, Dyadic.value]
  rw [cast_apply _ (mantissa : Int), cast_apply _ (mantissa' : Int), cast_apply,
    mul_assoc, mul_assoc, mul_assoc, modulo_apply]
  congr 1
  have scaled := shiftLeft_value mantissa (min_le_left exponent exponent')
  have scaled' := shiftLeft_value mantissa' (min_le_right exponent exponent')
  have some : 0 < mantissa' <<< (exponent' - min exponent exponent').toNat := by
    rw [Nat.shiftLeft_eq]
    exact Nat.mul_pos positive (Nat.two_pow_pos _)
  simp only [Int.cast_natCast]
  rw [← scaled, ← scaled', modulo_mul _ _ (two_zpow_pos _).ne']
  congr 1
  exact (modulo_intCast (_ : Nat) some).symm

theorem Exactly.remainder {first second : Float} {left right : ℚ} (exactly : Exactly first left)
    (exactly' : Exactly second right) (nonzero : right ≠ 0) :
    Exactly (remainder first second) (modulo left right) := by
  rcases exactly with ⟨finite, rfl⟩
  rcases exactly' with ⟨finite', rfl⟩
  rcases Dyadic.ofFloat_bounds first with ⟨small, low, -⟩
  rcases Dyadic.ofFloat_bounds second with ⟨small', low', -⟩
  have high := exponent_le_of_isFinite finite
  have notZero : (second == 0.0) = false := by
    rw [Bool.eq_false_iff]
    intro isZero
    rw [beq_iff_value finite' rfl, value_zero] at isZero
    exact nonzero isZero
  have positive : 0 < (Dyadic.ofFloat second).mantissa := by
    apply Nat.pos_of_ne_zero
    intro isZero
    apply nonzero
    rw [(exactly_ofFloat finite').denotes, Dyadic.value, isZero]
    simp
  rw [(exactly_ofFloat finite).denotes, (exactly_ofFloat finite').denotes,
    ← Dyadic.value_remainder _ _ positive]
  simp only [Number.remainder, not_isNaN finite, not_isNaN finite', not_isInf finite,
    not_isInf finite', notZero, Bool.or_self, Bool.false_eq_true, if_false]
  generalize Dyadic.ofFloat first = dividend at *
  generalize Dyadic.ofFloat second = divisor at *
  apply Dyadic.exactly_toFloat
  · simp only [Dyadic.remainder]
    rcases le_total dividend.exponent divisor.exponent with le | ge
    · rw [min_eq_left le, Int.sub_self]
      exact Nat.lt_of_le_of_lt (Nat.mod_le _ _) small
    · rw [min_eq_right ge, Int.sub_self]
      exact (Nat.mod_lt _ positive).trans small'
  · simp only [Dyadic.remainder]
    omega
  · simp only [Dyadic.remainder]
    omega

/-! ## Integers of 32 bits -/

theorem exactly_twoTo32 : Exactly twoTo32 (2 ^ 32 : Nat) := by
  have parts : Dyadic.ofFloat twoTo32 = ⟨false, 2 ^ 52, -20⟩ := by decide
  have exactly := exactly_ofFloat (rfl : twoTo32.isFinite = true)
  rw [parts] at exactly
  convert exactly using 1
  norm_num [Dyadic.value, Sign.apply]

theorem exactly_twoTo31 : Exactly twoTo31 (2 ^ 31 : Nat) := by
  have parts : Dyadic.ofFloat twoTo31 = ⟨false, 2 ^ 52, -21⟩ := by decide
  have exactly := exactly_ofFloat (rfl : twoTo31.isFinite = true)
  rw [parts] at exactly
  convert exactly using 1
  norm_num [Dyadic.value, Sign.apply]

theorem Exactly.euclideanRemainder {number : Float} {integer : Int}
    (exactly : Exactly number integer) :
    Exactly (euclideanRemainder number twoTo32) (integer % 2 ^ 32 : Int) := by
  have rest := exactly.remainder exactly_twoTo32 (by norm_num)
  rw [modulo_intCast integer (by norm_num)] at rest
  have reduced := Int.tmod_eq_emod (a := integer) (b := (2 ^ 32 : Nat))
  unfold Number.euclideanRemainder
  dsimp only
  split
  · next below =>
      rw [lt_iff_value rest.finite rfl, rest.denotes, value_zero] at below
      have below : integer.tmod (2 ^ 32 : Nat) < 0 := by exact_mod_cast below
      have same : integer.tmod (2 ^ 32 : Nat) + (2 ^ 32 : Nat) = integer % 2 ^ 32 := by
        split at reduced <;> omega
      have isSum : ((integer % 2 ^ 32 : Int) : ℚ) =
          integer.tmod (2 ^ 32 : Nat) + (2 ^ 32 : Nat) := by
        rw [← same]
        push_cast
        rfl
      have kept := kept_int (by omega : (integer % 2 ^ 32).natAbs < 2 ^ 53)
      rw [abs_eq_self rfl rfl]
      rw [isSum] at kept ⊢
      exact rest.add exactly_twoTo32 kept
  · next above =>
      rw [lt_iff_value rest.finite rfl, rest.denotes, value_zero] at above
      have above : ¬ integer.tmod (2 ^ 32 : Nat) < 0 := by exact_mod_cast above
      have same : integer.tmod (2 ^ 32 : Nat) = integer % 2 ^ 32 := by
        split at reduced <;> omega
      rwa [same] at rest

/-- The integer part of a number, which is zero for the numbers that are not finite. -/
def integerPart (number : Float) : Int := if number.isFinite then truncation (value number) else 0

theorem toNat_toUnsigned (number : Float) :
    ((toUnsigned number).toNat : Int) = integerPart number % 2 ^ 32 := by
  unfold toUnsigned integerPart
  cases finite : number.isFinite with
  | false => rfl
  | true =>
      have rest := (Exactly.self finite).truncate.euclideanRemainder
      rw [if_pos rfl, if_pos rfl]
      change ((UInt32.ofNatClamp (_ : Int).toNat).toNat : Int) = _
      rw [rest.toInt_eq, truncation_intCast, UInt32.ofNatClamp, dif_pos, UInt32.toNat_ofNatLT]
      · omega
      · rw [UInt32.size]
        omega

theorem toInt_clampSigned {number : Float} {integer : Int} (exactly : Exactly number integer)
    (low : -2 ^ 31 ≤ integer) (high : integer < 2 ^ 31) : (clampSigned number).toInt = integer := by
  have same := exactly.toInt_eq Int32.minValue.toInt Int32.maxValue.toInt
  rw [truncation_intCast] at same
  change (Int32.ofIntClamp (number.toModel.unpack.toInt _ _)).toInt = integer
  rw [same]
  exact Int32.toInt_ofIntClamp low (Int.le_sub_one_of_lt high)

theorem toInt_toSigned (number : Float) :
    (toSigned number).toInt = (integerPart number).bmod (2 ^ 32) := by
  unfold toSigned integerPart
  cases finite : number.isFinite with
  | false => rfl
  | true =>
      have rest := (Exactly.self finite).truncate.euclideanRemainder
      rw [if_pos rfl, if_pos rfl]
      dsimp only
      generalize truncation (value number) = integer at rest ⊢
      have upper : twoTo31 ≤ euclideanRemainder (truncate number) twoTo32 ↔
          2 ^ 31 ≤ integer % 2 ^ 32 := by
        rw [le_iff_value exactly_twoTo31.finite rest.finite, exactly_twoTo31.denotes, rest.denotes]
        exact_mod_cast Iff.rfl
      have half : ((2 ^ 32 : Nat) + 1) / 2 = (2 ^ 31 : Int) := rfl
      rw [Int.bmod_def]
      split
      · next above =>
          have above := upper.mp above
          have difference : ((integer % 2 ^ 32 : Int) - (2 ^ 32 : Nat) : ℚ) =
              (integer % 2 ^ 32 - 2 ^ 32 : Int) := by
            push_cast
            rfl
          have kept := kept_int (by omega : (integer % 2 ^ 32 - 2 ^ 32).natAbs < 2 ^ 53)
          rw [← difference] at kept
          have exactly := rest.sub exactly_twoTo32 kept
          rw [difference] at exactly
          rw [toInt_clampSigned exactly (by omega) (by omega), if_neg (by omega)]
          rfl
      · next below =>
          have below := mt upper.mpr below
          rw [toInt_clampSigned rest (by omega) (by omega), if_pos (by omega)]
          rfl

theorem toBitVec_toUnsigned (number : Float) :
    (toUnsigned number).toBitVec = BitVec.ofInt 32 (integerPart number) := by
  apply BitVec.eq_of_toNat_eq
  have whole := toNat_toUnsigned number
  rw [BitVec.toNat_ofInt, UInt32.toNat_toBitVec]
  omega

theorem toBitVec_toSigned (number : Float) :
    (toSigned number).toBitVec = BitVec.ofInt 32 (integerPart number) := by
  apply BitVec.eq_of_toInt_eq
  rw [BitVec.toInt_ofInt, Int32.toInt_toBitVec, toInt_toSigned]

theorem exactly_ofNat {number : Nat} (small : number < 2 ^ 53) :
    Exactly (Float.ofNat number) number := by
  rcases Nat.eq_zero_or_pos number with rfl | positive
  · rw [Nat.cast_zero]
    exact exactly_zero_literal
  · rcases canonical_of_lt positive small with ⟨mantissa, exponent, canonical, same⟩
    have attracts := attracts_self mantissa exponent
    rw [same] at attracts
    have reads : Float.ofNat number = _ :=
      @ofScientific_product _ _ number 0 canonical (by rwa [pow_zero, mul_one])
    have exactly := canonical.exactly .positive
    rw [← reads] at exactly
    exact same ▸ exactly

theorem exactly_ofInt {integer : Int} (small : integer.natAbs < 2 ^ 53) :
    Exactly (Float.ofInt integer) integer := by
  rcases integer with number | number
  · exact exactly_ofNat small
  · have opposite := (exactly_ofNat small).neg
    rw [Int.cast_negSucc]
    exact opposite

end ExprScript.Number
