import ExprScript.Proofs.Number.Written

/-! # Numbers with a sign

A literal has no sign, so a negative number is written as a minus sign and the
literal of its magnitude. The magnitude has the same mantissa and the same
exponent, and so the same digits.
-/

namespace ExprScript.Number

open Float.Model Float.Model.UnpackedFloat

/-! ## The bits of a magnitude -/

theorem toNat_unpackExponent (bits : BitVec 64) :
    (@unpackExponent Format.binary64 bits).toNat = bits.toNat / 2 ^ 52 % 2 ^ 11 := by
  simp only [unpackExponent, BitVec.toNat_cast, BitVec.extractLsb_toNat]
  change bits.toNat >>> 52 % 2 ^ 11 = _
  rw [Nat.shiftRight_eq_div_pow]

theorem toNat_unpackMantissa (bits : BitVec 64) :
    (@unpackMantissa Format.binary64 bits).toNat = bits.toNat % 2 ^ 52 := by
  simp only [unpackMantissa, BitVec.toNat_cast, BitVec.extractLsb_toNat]
  change bits.toNat >>> 0 % 2 ^ 52 = _
  rw [Nat.shiftRight_zero]

theorem toNat_unpackSign (bits : BitVec 64) :
    (@unpackSign Format.binary64 bits).toNat = bits.toNat / 2 ^ 63 := by
  have small := bits.isLt
  simp only [unpackSign, BitVec.toNat_cast, BitVec.extractLsb_toNat]
  change bits.toNat >>> 63 % 2 = _
  rw [Nat.shiftRight_eq_div_pow]
  omega

def signed (sign : Sign) (bits : BitVec 64) : BitVec 64 :=
  packComponents .binary64 sign (@unpackExponent .binary64 bits) (@unpackMantissa .binary64 bits)

theorem signed_self (bits : BitVec 64) :
    signed (Sign.ofBitVec (@unpackSign .binary64 bits)) bits = bits :=
  @packComponents_unpackSign_unpackExponent_unpackMantissa .binary64 bits

def setSign (sign : Sign) : UnpackedFloat → UnpackedFloat
  | .notANumber => .notANumber
  | .infinity _ => .infinity sign
  | .zero _ => .zero sign
  | .finite _ mantissa exponent positive => .finite sign mantissa exponent positive

theorem unpack_signed (sign : Sign) (bits : BitVec 64) :
    unpack .binary64 (signed sign bits) = setSign sign (unpack .binary64 bits) := by
  unfold signed UnpackedFloat.unpack
  simp only [unpackExponent_packComponents, unpackMantissa_packComponents,
    UnpackedFloat.unpackSign_packComponents, Sign.ofBitVec_toBitVec]
  split
  · split <;> rfl
  · split
    · split <;> rfl
    · rfl

theorem not_isNaNBits {bits : BitVec 64} (finite : (unpack .binary64 bits).isFinite = true)
    (sign : Sign) : @isNaNBits .binary64 (signed sign bits) = false := by
  rw [isNaNBits, decide_eq_false_iff_not]
  rintro ⟨largest, -⟩
  rw [signed, unpackExponent_packComponents] at largest
  unfold UnpackedFloat.unpack at finite
  simp only [largest, if_true] at finite
  split at finite <;> cases finite

theorem pack_setSign {bits : BitVec 64} (finite : (unpack .binary64 bits).isFinite = true)
    (sign : Sign) :
    pack .binary64 (setSign sign (unpack .binary64 bits)) = signed sign bits := by
  rw [← unpack_signed, pack_unpack, not_isNaNBits finite]
  rfl

theorem toBits_abs {number : Float} (finite : number.isFinite = true) :
    number.abs.toBits.toBitVec = signed .positive number.toBits.toBitVec := by
  have same : number.toModel.unpack.abs = setSign .positive number.toModel.unpack := by
    cases number.toModel.unpack <;> rfl
  change pack .binary64 number.toModel.unpack.abs = _
  rw [same]
  exact pack_setSign finite .positive

theorem unpack_abs {number : Float} (finite : number.isFinite = true) :
    number.abs.toModel.unpack = setSign .positive number.toModel.unpack := by
  change unpack .binary64 number.abs.toBits.toBitVec = _
  rw [toBits_abs finite, unpack_signed]
  rfl

theorem isFinite_setSign (sign : Sign) (form : UnpackedFloat) :
    (setSign sign form).isFinite = form.isFinite := by
  cases form <;> rfl

theorem isFinite_abs {number : Float} (finite : number.isFinite = true) :
    number.abs.isFinite = true := by
  change number.abs.toModel.unpack.isFinite = true
  rw [unpack_abs finite, isFinite_setSign]
  exact finite

theorem toNat_toBits_abs {number : Float} (finite : number.isFinite = true) :
    number.abs.toBits.toNat = number.toBits.toNat % 2 ^ 63 := by
  change number.abs.toBits.toBitVec.toNat = _
  have parts := toNat_packComponents (@unpackExponent .binary64 number.toBits.toBitVec)
    (@unpackMantissa .binary64 number.toBits.toBitVec)
  rw [toBits_abs finite, signed, parts, toNat_unpackExponent, toNat_unpackMantissa]
  change number.toBits.toNat / 2 ^ 52 % 2 ^ 11 * 2 ^ 52 + number.toBits.toNat % 2 ^ 52 = _
  omega

theorem sign_of_hasSign (number : Float) :
    Sign.ofBitVec (@unpackSign .binary64 number.toBits.toBitVec) =
      if hasSign number then .negative else .positive := by
  have value := toNat_unpackSign number.toBits.toBitVec
  have small := number.toBits.toBitVec.isLt
  change _ = number.toBits.toNat / 2 ^ 63 at value
  change number.toBits.toNat < 2 ^ 64 at small
  simp only [hasSign, Dyadic.ofFloat, Nat.shiftRight_eq_div_pow, beq_iff_eq, Sign.ofBitVec]
  by_cases set : number.toBits.toNat / 2 ^ 63 = 1
  · rw [if_pos set, if_neg]
    intro clear
    rw [clear] at value
    simp only [BitVec.toNat_ofNat] at value
    omega
  · rw [if_neg set, if_pos]
    apply BitVec.eq_of_toNat_eq
    simp only [BitVec.toNat_ofNat]
    omega

theorem abs_eq_self {number : Float} (finite : number.isFinite = true)
    (positive : hasSign number = false) : number.abs = number := by
  have sign := sign_of_hasSign number
  rw [positive] at sign
  apply eq_of_toBits
  rw [toBits_abs finite]
  have same := signed_self number.toBits.toBitVec
  rwa [sign] at same

theorem neg_abs {number : Float} (finite : number.isFinite = true)
    (negative : hasSign number = true) : -number.abs = number := by
  have sign := sign_of_hasSign number
  rw [negative, if_pos rfl] at sign
  have opposite : (setSign .positive number.toModel.unpack).neg =
      setSign .negative number.toModel.unpack := by
    cases number.toModel.unpack <;> rfl
  apply eq_of_toBits
  change pack .binary64 number.abs.toModel.unpack.neg = _
  rw [unpack_abs finite, opposite]
  have same := signed_self number.toBits.toBitVec
  rw [sign] at same
  exact (pack_setSign finite .negative).trans same

theorem plain_abs {number : Float} (finite : number.isFinite = true) : Plain number.abs := by
  change number.toModel.unpack.isFinite = true at finite
  change Plain (.ofModel (.pack number.toModel.unpack.abs))
  apply plain_ofModel_pack
  generalize number.toModel.unpack = form at finite
  cases form with
  | notANumber => cases finite
  | infinity => cases finite
  | zero => exact .zero
  | finite sign mantissa exponent positive => exact .finite mantissa exponent positive

theorem not_isNaN {number : Float} (finite : number.isFinite = true) : number.isNaN = false := by
  change number.toModel.unpack.isFinite = true at finite
  change number.toModel.unpack.isNaN = false
  cases form : number.toModel.unpack with
  | notANumber => rw [form] at finite; cases finite
  | infinity | zero | finite => rfl

theorem isZero_abs {number : Float} (finite : number.isFinite = true) :
    (number.abs == 0.0) = (number == 0.0) := by
  change number.abs.toModel.unpack.beq (.zero .positive) =
    number.toModel.unpack.beq (.zero .positive)
  rw [unpack_abs finite]
  cases number.toModel.unpack with
  | notANumber => rfl
  | infinity sign => cases sign <;> rfl
  | zero sign => rfl
  | finite sign mantissa exponent positive => cases sign <;> rfl

theorem ofFloat_abs {number : Float} (finite : number.isFinite = true) :
    (Dyadic.ofFloat number.abs).mantissa = (Dyadic.ofFloat number).mantissa ∧
      (Dyadic.ofFloat number.abs).exponent = (Dyadic.ofFloat number).exponent := by
  have bits := toNat_toBits_abs finite
  have bit : hiddenBit = 2 ^ 52 := rfl
  have field : number.abs.toBits.toNat >>> 52 % 2048 = number.toBits.toNat >>> 52 % 2048 := by
    rw [bits, Nat.shiftRight_eq_div_pow, Nat.shiftRight_eq_div_pow]
    omega
  have fraction : number.abs.toBits.toNat % 2 ^ 52 = number.toBits.toNat % 2 ^ 52 := by
    rw [bits]
    omega
  simp only [Dyadic.ofFloat, field, bit, fraction, and_self]

/-! ## The text of a number with a sign -/

def isNegative (number : Float) : Bool := hasSign number && !(number == 0.0)

def placedDigits (value : Dyadic) : String :=
  let (digits, point) :=
    Layout.digitsAndPoint (shortest value.mantissa value.exponent standard.tie)
  String.ofList (standard.place digits point)

theorem toText_of_isFinite {number : Float} (finite : number.isFinite = true) :
    toText number = if number == 0.0 then "0"
      else (if hasSign number then "-" else "") ++ placedDigits (Dyadic.ofFloat number) := by
  rw [toText, Layout.write, not_isNaN finite, not_isInf finite]
  rfl

theorem toText_eq {number : Float} (finite : number.isFinite = true) :
    toText number = (if isNegative number then "-" else "") ++ print number.abs := by
  have plain := plain_abs finite
  have finite' := isFinite_abs finite
  have isText : print number.abs = toText number.abs := by
    rw [print, plain.not_isNaN, not_isInf finite']
    rfl
  have sameDigits : placedDigits (Dyadic.ofFloat number.abs) =
      placedDigits (Dyadic.ofFloat number) := by
    rw [placedDigits, placedDigits, (ofFloat_abs finite).1, (ofFloat_abs finite).2]
  rw [isText, toText_of_isFinite finite, toText_of_isFinite finite', isZero_abs finite,
    plain.not_hasSign, sameDigits, isNegative]
  cases number == 0.0 <;> cases hasSign number <;> simp

theorem eq_or_zeros_of_beq {first second : Float} (equal : (first == second) = true) :
    first = second ∨ (first = 0.0 ∧ second = -0.0) ∨ (first = -0.0 ∧ second = 0.0) := by
  change first.toModel.unpack.beq second.toModel.unpack = true at equal
  have bits : packedZero .binary64 .negative = (-0.0 : Float).toBits.toBitVec := by decide
  rcases (unpack_beq_unpack_iff first.toModel.valid second.toModel.valid).mp equal with
    ⟨-, -, same | ⟨isZero, isZero'⟩ | ⟨isZero, isZero'⟩⟩
  · exact .inl (eq_of_toBits same)
  · exact .inr (.inl ⟨@eq_of_toBits first 0.0 isZero,
      @eq_of_toBits second (-0.0) (isZero'.trans bits)⟩)
  · exact .inr (.inr ⟨@eq_of_toBits first (-0.0) (isZero.trans bits),
      @eq_of_toBits second 0.0 isZero'⟩)

theorem toText_of_beq {first second : Float} (equal : (first == second) = true) :
    toText first = toText second := by
  have zeros : toText 0.0 = toText (-0.0) := by decide
  rcases eq_or_zeros_of_beq equal with same | ⟨rfl, rfl⟩ | ⟨rfl, rfl⟩
  · rw [same]
  · exact zeros
  · exact zeros.symm

/-! ## Whole numbers -/

theorem isFinite_neg {number : Float} (finite : number.isFinite = true) :
    (-number).isFinite = true := by
  have opposite : ∃ sign, number.toModel.unpack.neg = setSign sign number.toModel.unpack := by
    cases number.toModel.unpack with
    | notANumber => exact ⟨.positive, rfl⟩
    | infinity sign | zero sign => exact ⟨-sign, rfl⟩
    | finite sign mantissa exponent positive => exact ⟨-sign, rfl⟩
  rcases opposite with ⟨sign, equal⟩
  change (UnpackedFloat.unpack .binary64
    (UnpackedFloat.pack .binary64 number.toModel.unpack.neg)).isFinite = true
  rw [equal]
  have packed : UnpackedFloat.pack .binary64 (setSign sign number.toModel.unpack) =
      signed sign number.toBits.toBitVec := pack_setSign finite sign
  rw [packed, unpack_signed, isFinite_setSign]
  exact finite

theorem mantissa_shiftRight_le (extended : ExtendedMantissa) (shift : Nat) :
    (extended >>> shift).mantissa ≤ extended.mantissa := by
  change (shift.repeat ExtendedMantissa.shiftRightOne extended).mantissa ≤ _
  induction shift with
  | zero => exact Nat.le_refl _
  | succ shift induction =>
      refine Nat.le_trans ?_ induction
      rw [Nat.repeat, ExtendedMantissa.shiftRightOne]
      exact Nat.div_le_self _ _

theorem roundedMantissa_le (extended : ExtendedMantissa) :
    extended.roundedMantissa ≤ extended.mantissa + 1 := by
  unfold ExtendedMantissa.roundedMantissa Accuracy.roundToNearestEven
  split <;> omega

/-- Bringing a number to the exponent that it is kept with makes its mantissa no
larger, and its exponent only by the bits that are not kept. -/
theorem shiftToTargetExponent_le {mantissa bits : Nat} {exponent : Int}
    (small : mantissa < 2 ^ (bits + 1)) (low : -1074 ≤ exponent) :
    (shiftToTargetExponent .binary64 mantissa exponent .exact).1.mantissa ≤ mantissa ∧
      -1074 ≤ (shiftToTargetExponent .binary64 mantissa exponent .exact).2 ∧
      (shiftToTargetExponent .binary64 mantissa exponent .exact).2 ≤ exponent + bits := by
  have length : mantissa.log2 ≤ bits := by
    by_cases isZero : mantissa = 0
    · simp [isZero]
    · exact Nat.le_of_lt_succ ((Nat.log2_lt isZero).mpr small)
  refine ⟨mantissa_shiftRight_le _ _, ?_, ?_⟩
  · simp only [shiftToTargetExponent, shiftToExponent]
    omega
  · simp only [shiftToTargetExponent, shiftToExponent, Format.targetExponent, totalExponent,
      Format.minExponent, Format.mantissaBits]
    omega

theorem isFinite_unpack_packComponents {exponent : BitVec 11} (bound : exponent.toNat ≤ 2046)
    (sign : Sign) (mantissa : BitVec 52) :
    (UnpackedFloat.unpack .binary64
      (packComponents .binary64 sign exponent mantissa)).isFinite = true := by
  have notLargest : exponent ≠ -1#11 := by
    rintro rfl
    exact absurd bound (by decide)
  unfold UnpackedFloat.unpack
  simp only [unpackExponent_packComponents, unpackMantissa_packComponents]
  rw [if_neg notLargest]
  split
  · split <;> rfl
  · rfl

theorem isFinite_unpack_pack {mantissa : Nat} {exponent : Int} {positive : 0 < mantissa}
    (bound : exponent ≤ 971) (sign : Sign) :
    (UnpackedFloat.unpack .binary64 (UnpackedFloat.pack .binary64
      (.finite sign mantissa exponent positive))).isFinite = true := by
  have field : (exponent + Format.binary64.exponentBias +
      (Format.binary64.mantissaBitsWithoutImplicit : Nat)).toNat ≤ 2046 := by
    simp only [Format.exponentBias]
    omega
  unfold UnpackedFloat.pack
  dsimp only
  rw [if_neg (Nat.not_le.mpr (Nat.succ_lt_succ (Nat.lt_succ_of_le field)))]
  split
  · refine isFinite_unpack_packComponents ?_ _ _
    rw [BitVec.toNat_ofNat]
    exact Nat.le_trans (Nat.mod_le _ _) field
  · exact isFinite_unpack_packComponents (by decide) _ _

theorem isFinite_ofNat {number : Nat} (small : number < 2 ^ 64) :
    (Float.ofNat number).isFinite = true := by
  rcases Nat.eq_zero_or_pos number with rfl | positive
  · decide
  change (Float.ofScientific number false 0).isFinite = true
  rw [ofScientific_whole positive (by decide)]
  -- The mantissa is shifted twice, as rounding may make it longer by one bit.
  have small' : number * 10 ^ 0 * 2 ^ 53 < 2 ^ (116 + 1) := by omega
  rcases shiftToTargetExponent_le small' (by decide : -1074 ≤ (-53 : Int)) with
    ⟨mantissa, low, high⟩
  change (UnpackedFloat.unpack .binary64 (UnpackedFloat.pack .binary64 _)).isFinite = true
  unfold roundWithAccuracy
  generalize shiftToTargetExponent .binary64 (number * 10 ^ 0 * 2 ^ 53) (-53) .exact = first
    at mantissa low high
  rcases first with ⟨extended, exponent⟩
  have rounded := roundedMantissa_le extended
  have small'' : extended.roundedMantissa < 2 ^ (117 + 1) := by
    dsimp only at mantissa
    omega
  rcases shiftToTargetExponent_le small'' low with ⟨-, -, high'⟩
  dsimp only at high high' ⊢
  split
  · exact isFinite_unpack_packComponents (by decide) _ _
  · exact isFinite_unpack_pack (by omega) _

theorem isFinite_ofInt {value : Int} (small : value.natAbs < 2 ^ 64) :
    (Float.ofInt value).isFinite = true := by
  cases value with
  | ofNat number => exact isFinite_ofNat small
  | negSucc number => exact isFinite_neg (isFinite_ofNat small)

end ExprScript.Number
