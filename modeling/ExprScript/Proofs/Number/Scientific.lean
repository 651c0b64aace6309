import ExprScript.Proofs.Number.Plain

/-! # Decimal notation with and without an exponent

A whole number rounds to the same binary64 number whether it is written with its
zeros or with an exponent for them.
-/

namespace ExprScript.Number

open Float.Model Float.Model.UnpackedFloat

/-! ## Rounding depends on the value only -/

theorem shiftRight_exact (mantissa shift : Nat) :
    ExtendedMantissa.ofMantissaAndAccuracy (mantissa * 2 ^ shift) .exact >>> shift =
      ExtendedMantissa.ofMantissaAndAccuracy mantissa .exact := by
  change shift.repeat ExtendedMantissa.shiftRightOne _ = _
  induction shift generalizing mantissa with
  | zero => simp [Nat.repeat]
  | succ shift induction =>
      rw [Nat.repeat, Nat.pow_succ', ← Nat.mul_assoc, induction]
      simp [ExtendedMantissa.shiftRightOne, ExtendedMantissa.ofMantissaAndAccuracy]

theorem shiftRight_add (extended : ExtendedMantissa) (first second : Nat) :
    extended >>> (first + second) = extended >>> first >>> second := by
  change (first + second).repeat _ _ = second.repeat _ (first.repeat _ _)
  induction second with
  | zero => rfl
  | succ second induction =>
      change ExtendedMantissa.shiftRightOne ((first + second).repeat _ _) = _
      rw [induction]
      rfl

theorem log2_mul_pow (number shift : Nat) (positive : 0 < number) :
    (number * 2 ^ shift).log2 = number.log2 + shift := by
  induction shift with
  | zero => simp
  | succ shift induction =>
      have nonzero : number * 2 ^ shift ≠ 0 := by
        have := Nat.two_pow_pos shift
        exact Nat.mul_ne_zero (by omega) (by omega)
      rw [Nat.pow_succ, ← Nat.mul_assoc, Nat.mul_comm _ 2, Nat.log2_two_mul nonzero, induction]
      omega

/-- Zeros at the end of the mantissa make no difference. -/
theorem roundWithAccuracy_shift (spec : Format) (sign : Sign) {mantissa : Nat}
    (positive : 0 < mantissa) (exponent : Int) (shift : Nat)
    (reached : exponent ≤ spec.targetExponent (totalExponent mantissa exponent)) :
    roundWithAccuracy spec sign (mantissa * 2 ^ shift) (exponent - shift) .exact =
      roundWithAccuracy spec sign mantissa exponent .exact := by
  have total : totalExponent (mantissa * 2 ^ shift) (exponent - shift) =
      totalExponent mantissa exponent := by
    simp only [totalExponent, log2_mul_pow mantissa shift positive]
    omega
  have shifted : shiftToTargetExponent spec (mantissa * 2 ^ shift) (exponent - shift) .exact =
      shiftToTargetExponent spec mantissa exponent .exact := by
    simp only [shiftToTargetExponent, shiftToExponent, total]
    generalize spec.targetExponent (totalExponent mantissa exponent) = target at reached
    have amount : (target - (exponent - shift)).toNat = shift + (target - exponent).toNat := by
      omega
    rw [amount, shiftRight_add, shiftRight_exact]
    congr 1
    omega
  rw [roundWithAccuracy, roundWithAccuracy, shifted]

/-- Two ways to write a value round to the same number. -/
theorem roundWithAccuracy_congr (spec : Format) (sign : Sign) (shift shift' : Nat)
    {first second : Nat} {exponent exponent' : Int} (positive : 0 < first)
    (positive' : 0 < second) (same : first * 2 ^ shift = second * 2 ^ shift')
    (level : exponent - shift = exponent' - shift')
    (reached : exponent ≤ spec.targetExponent (totalExponent first exponent))
    (reached' : exponent' ≤ spec.targetExponent (totalExponent second exponent')) :
    roundWithAccuracy spec sign first exponent .exact =
      roundWithAccuracy spec sign second exponent' .exact := by
  rw [← roundWithAccuracy_shift spec sign positive exponent shift reached, same, level,
    roundWithAccuracy_shift spec sign positive' exponent' shift' reached']

/-! ## Numbers that are held exactly -/

theorem roundWithAccuracy_normal {mantissa : Nat} (low : 2 ^ 52 ≤ mantissa)
    (high : mantissa < 2 ^ 53) {exponent : Int} (bound : -1074 ≤ exponent) (sign : Sign) :
    roundWithAccuracy .binary64 sign mantissa exponent .exact =
      .finite sign mantissa exponent (Nat.lt_of_lt_of_le (by decide) low) := by
  have length : mantissa.log2 = 52 := by
    have := (Nat.le_log2 (by omega)).mpr low
    have := (Nat.log2_lt (by omega)).mpr high
    omega
  have target : Format.binary64.targetExponent (totalExponent mantissa exponent) = exponent := by
    simp only [Format.targetExponent, totalExponent, Format.minExponent, Format.mantissaBits,
      length]
    omega
  have shifted : shiftToTargetExponent .binary64 mantissa exponent .exact =
      (ExtendedMantissa.ofMantissaAndAccuracy mantissa .exact, exponent) := by
    simp only [shiftToTargetExponent, shiftToExponent, target, Int.sub_self]
    change (_, exponent + 0) = _
    rw [Int.add_zero]
    rfl
  have rounded : (ExtendedMantissa.ofMantissaAndAccuracy mantissa .exact).roundedMantissa =
      mantissa := rfl
  unfold roundWithAccuracy
  simp only [shifted, rounded]
  exact dif_neg (Nat.ne_of_gt (Nat.lt_of_lt_of_le (by decide) low))

theorem unpackSign_packComponents (exponent : BitVec 11) (mantissa : BitVec 52) :
    @unpackSign Format.binary64 (packComponents Format.binary64 .positive exponent mantissa) =
      0#1 := by
  apply BitVec.eq_of_toNat_eq
  have small := exponent.isLt
  have small' := mantissa.isLt
  simp only [unpackSign, BitVec.toNat_cast, BitVec.extractLsb_toNat, toNat_packComponents]
  change (exponent.toNat * 2 ^ 52 + mantissa.toNat) >>> 63 % 2 = 0
  rw [Nat.shiftRight_eq_div_pow]
  omega

theorem unpack_pack_normal {mantissa : Nat} (low : 2 ^ 52 ≤ mantissa)
    (high : mantissa < 2 ^ 53) {exponent : Int} (bound : -1074 ≤ exponent) (bound' : exponent ≤ 971)
    (positive : 0 < mantissa) :
    unpack .binary64 (pack .binary64 (.finite .positive mantissa exponent positive)) =
      .finite .positive mantissa exponent positive := by
  have length : mantissa.log2 = 52 := by
    have := (Nat.le_log2 (by omega)).mpr low
    have := (Nat.log2_lt (by omega)).mpr high
    omega
  have field : (exponent + Format.binary64.exponentBias +
      (Format.binary64.mantissaBitsWithoutImplicit : Nat)).toNat = (exponent + 1075).toNat := by
    simp only [Format.exponentBias]
    omega
  have packed : pack .binary64 (.finite .positive mantissa exponent positive) =
      packComponents .binary64 .positive (BitVec.ofNat _ (exponent + 1075).toNat)
        (BitVec.ofNat _ mantissa) := by
    unfold UnpackedFloat.pack
    simp only [field, length]
    rw [if_neg (by change ¬ 2048 ≤ _; omega)]
    exact if_pos rfl
  have exponentBits : (BitVec.ofNat 11 (exponent + 1075).toNat).toNat = (exponent + 1075).toNat := by
    rw [BitVec.toNat_ofNat, Nat.mod_eq_of_lt (by omega)]
  have mantissaBits : (1#1 ++ BitVec.ofNat 52 mantissa).toNat = mantissa := by
    rw [BitVec.toNat_append, ← Nat.shiftLeft_add_eq_or_of_lt (BitVec.isLt _), BitVec.toNat_ofNat]
    change 1 <<< 52 + mantissa % 2 ^ 52 = mantissa
    rw [Nat.shiftLeft_eq]
    omega
  rw [packed]
  unfold UnpackedFloat.unpack
  simp only [unpackMantissa_packComponents, unpackExponent_packComponents,
    unpackSign_packComponents]
  rw [if_neg, if_neg]
  · change UnpackedFloat.finite .positive (1#1 ++ BitVec.ofNat 52 mantissa).toNat
      ((BitVec.ofNat 11 (exponent + 1075).toNat).toNat - (1023 + 52)) _ = _
    congr 1
    omega
  · intro wrong
    have wrong : (exponent + 1075).toNat = 0 := exponentBits.symm.trans (congrArg BitVec.toNat wrong)
    omega
  · intro wrong
    have wrong : (exponent + 1075).toNat = 2047 :=
      exponentBits.symm.trans (congrArg BitVec.toNat wrong)
    omega

theorem fullMantissa_bounds {number : Nat} (positive : 0 < number) (small : number < 2 ^ 53) :
    number.log2 ≤ 52 ∧ 2 ^ 52 ≤ number * 2 ^ (52 - number.log2) ∧
      number * 2 ^ (52 - number.log2) < 2 ^ 53 := by
  have length : number.log2 ≤ 52 := by
    have := (Nat.log2_lt (by omega)).mpr small
    omega
  refine ⟨length, ?_, ?_⟩
  · calc 2 ^ 52 = 2 ^ number.log2 * 2 ^ (52 - number.log2) := by
          rw [← Nat.pow_add]
          congr 1
          omega
      _ ≤ number * 2 ^ (52 - number.log2) := Nat.mul_le_mul_right _ (Nat.log2_self_le (by omega))
  · calc number * 2 ^ (52 - number.log2) < 2 ^ (number.log2 + 1) * 2 ^ (52 - number.log2) :=
          Nat.mul_lt_mul_of_pos_right Nat.lt_log2_self (Nat.two_pow_pos _)
      _ = 2 ^ 53 := by
          rw [← Nat.pow_add]
          congr 1
          omega

theorem ofNat_small {number : Nat} (positive : 0 < number) (small : number < 2 ^ 53) :
    ∃ positive', UnpackedFloat.ofNat .binary64 number =
      .finite .positive (number * 2 ^ (52 - number.log2)) (number.log2 - 52) positive' := by
  rcases fullMantissa_bounds positive small with ⟨length, low, high⟩
  have rounds : UnpackedFloat.ofNat .binary64 number =
      UnpackedFloat.round .binary64 .positive number 0 := by
    have greater : compare (number : Int) 0 = .gt := Int.compare_eq_gt.mpr (by omega)
    simp only [UnpackedFloat.ofNat, UnpackedFloat.ofInt, UnpackedFloat.normalize, greater, Int.toNat_natCast]
  have target : Format.binary64.targetExponent (totalExponent number 0) = number.log2 - 52 := by
    simp only [Format.targetExponent, totalExponent, Format.minExponent, Format.mantissaBits]
    omega
  have decreased : decreaseExponent number 0 (number.log2 - 52) =
      (number * 2 ^ (52 - number.log2), (number.log2 : Int) - 52) := by
    have amount : ((0 : Int) - (number.log2 - 52)).toNat = 52 - number.log2 := by omega
    simp only [decreaseExponent, amount, Nat.shiftLeft_eq]
    congr 1
    omega
  refine ⟨Nat.lt_of_lt_of_le (by decide) low, ?_⟩
  rw [rounds, UnpackedFloat.round]
  simp only [target, decreased]
  exact roundWithAccuracy_normal low high (by omega) .positive

theorem unpack_toFloat {number : Nat} (positive : 0 < number) (small : number < 2 ^ 53) :
    ∃ positive', number.toUInt64.toFloat.toModel.unpack =
      .finite .positive (number * 2 ^ (52 - number.log2)) (number.log2 - 52) positive' := by
  rcases ofNat_small positive small with ⟨positive', equal⟩
  rcases fullMantissa_bounds positive small with ⟨length, low, high⟩
  refine ⟨positive', ?_⟩
  have held : number.toUInt64.toNat = number := by
    rw [Nat.toUInt64_eq, UInt64.toNat_ofNat', Nat.mod_eq_of_lt (by omega)]
  change unpack .binary64 (UnpackedFloat.pack .binary64
    (UnpackedFloat.ofNat .binary64 number.toUInt64.toNat)) = _
  rw [held, equal]
  exact unpack_pack_normal low high (by omega) (by omega) positive'

def IsPowerOfTen (power : Nat) : UnpackedFloat → Prop
  | .finite .positive mantissa exponent _ =>
    2 ^ 52 ≤ mantissa ∧ mantissa * 2 ^ exponent.toNat = 10 ^ power * 2 ^ (-exponent).toNat
  | _ => False

instance (power : Nat) : ∀ number, Decidable (IsPowerOfTen power number)
  | .finite .positive _ _ _ => inferInstanceAs (Decidable (_ ∧ _))
  | .finite .negative _ _ _ | .infinity _ | .zero _ | .notANumber =>
    inferInstanceAs (Decidable False)

theorem isPowerOfTen_table : ∀ power,
    (known : power < Float.exactlyRepresentablePowersOfTen.size) →
      IsPowerOfTen power Float.exactlyRepresentablePowersOfTen[power].toModel.unpack := by
  decide

theorem reached_of_bits {mantissa : Nat} (bits : 53 ≤ mantissa.log2) (exponent : Int) :
    exponent ≤ Format.binary64.targetExponent (totalExponent mantissa exponent) := by
  simp only [Format.targetExponent, totalExponent, Format.mantissaBits]
  omega

theorem roundWithAccuracy_product {significand power mantissa : Nat} {exponent : Int}
    (small : significand < 2 ^ 53) (positive : 0 < significand) (low : 2 ^ 52 ≤ mantissa)
    (value : mantissa * 2 ^ exponent.toNat = 10 ^ power * 2 ^ (-exponent).toNat) :
    roundWithAccuracy .binary64 .positive (significand * 2 ^ (52 - significand.log2) * mantissa)
        (significand.log2 - 52 + exponent) .exact =
      roundWithAccuracy .binary64 .positive (significand * 10 ^ power * 2 ^ 53) (-53) .exact := by
  rcases fullMantissa_bounds positive small with ⟨length, low', -⟩
  generalize complement : 52 - significand.log2 = shift at low' ⊢
  have large : 2 ^ 104 ≤ significand * 2 ^ shift * mantissa := by
    rw [show 104 = 52 + 52 from rfl, Nat.pow_add]
    exact Nat.mul_le_mul low' low
  have large' : 2 ^ 53 ≤ significand * 10 ^ power * 2 ^ 53 :=
    Nat.le_mul_of_pos_left _ (Nat.mul_pos positive (Nat.pow_pos (by decide)))
  have positive' := Nat.lt_of_lt_of_le (Nat.two_pow_pos 104) large
  have positive'' := Nat.lt_of_lt_of_le (Nat.two_pow_pos 53) large'
  -- Both are brought down to the exponent where neither has a fraction.
  apply roundWithAccuracy_congr .binary64 .positive (exponent.toNat + 53)
    (shift + (-exponent).toNat) positive' positive''
  · calc significand * 2 ^ shift * mantissa * 2 ^ (exponent.toNat + 53)
        = significand * 2 ^ shift * (mantissa * 2 ^ exponent.toNat) * 2 ^ 53 := by
          simp only [Nat.pow_add, Nat.mul_assoc]
      _ = significand * 10 ^ power * 2 ^ 53 * 2 ^ (shift + (-exponent).toNat) := by
          rw [value, Nat.pow_add]
          generalize 10 ^ power = ten
          generalize 2 ^ 53 = two
          ac_rfl
  · omega
  · apply reached_of_bits
    have := (Nat.le_log2 (Nat.ne_of_gt positive')).mpr large
    omega
  · apply reached_of_bits
    exact (Nat.le_log2 (Nat.ne_of_gt positive'')).mpr large'

theorem ofScientific_whole {significand power : Nat} (positive : 0 < significand)
    (moderate : power ≤ 2048) :
    Float.ofScientific significand false power = .ofModel (.pack (roundWithAccuracy .binary64
      .positive (significand * 10 ^ power * 2 ^ 53) (-53) .exact)) := by
  have positive' : 0 < 10 ^ power := Nat.pow_pos (by decide)
  have positive'' : 0 < significand * 10 ^ power := Nat.mul_pos positive positive'
  unfold Float.ofScientific
  split
  · next small =>
      rcases unpack_toFloat positive small.1 with ⟨first, unpacked⟩
      have within : power < Float.exactlyRepresentablePowersOfTen.size :=
        Nat.lt_of_le_of_lt small.2 (by decide)
      have isPower := isPowerOfTen_table power within
      change Float.ofModel (.pack (UnpackedFloat.mul .binary64
        significand.toUInt64.toFloat.toModel.unpack
        (Float.exactlyRepresentablePowersOfTen[power]).toModel.unpack)) = _
      rw [unpacked]
      generalize Float.exactlyRepresentablePowersOfTen[power].toModel.unpack = table at isPower
      match table, isPower with
      | .finite .positive mantissa exponent second, ⟨low, value⟩ =>
          apply congrArg fun unpacked => Float.ofModel (.pack unpacked)
          exact roundWithAccuracy_product small.1 positive low value
  · change Float.ofModel (.pack (UnpackedFloat.ofScientific .binary64 significand power)) = _
    apply congrArg fun unpacked => Float.ofModel (.pack unpacked)
    unfold UnpackedFloat.ofScientific
    have bits : Format.binary64.mantissaBits = 53 := rfl
    have product : (significand <<< 53) * 10 ^ power = significand * 10 ^ power * 2 ^ 53 := by
      rw [Nat.shiftLeft_eq, Nat.mul_assoc, Nat.mul_assoc, Nat.mul_comm (2 ^ 53)]
    rw [dif_neg (by omega), if_neg (by change ¬ (power : Int) > 2048; omega), if_neg, if_pos]
    · simp only [UnpackedFloat.mul, Int.toNat_natCast, bits, product]
      rfl
    · omega
    · change ¬ (power : Int) < -(2048 + significand.log2)
      omega

theorem Decimal.toFloat_zeros {significand power : Nat} (positive : 0 < significand)
    (bound : power ≤ 22) (small : significand * 10 ^ power < 10 ^ 22) :
    Decimal.toFloat ⟨significand * 10 ^ power, 0⟩ = Decimal.toFloat ⟨significand, power⟩ := by
  have whole : ∀ significand power : Nat, 0 < significand → power ≤ 22 →
      significand < 10 ^ 22 → Decimal.toFloat ⟨significand, power⟩ =
        Float.ofScientific significand false power := by
    intro significand power positive bound small
    have bits : significand.log2 < 74 :=
      (Nat.log2_lt (by omega)).mpr (Nat.lt_trans small (by decide))
    simp only [Decimal.toFloat, Int.ofNat_eq_natCast]
    rw [if_neg, if_neg]
    · rw [Int.natAbs_natCast, decide_eq_false (by omega)]
    · omega
    · simp only [Bool.or_eq_true, decide_eq_true_eq, not_or]
      omega
  have positive' : 0 < significand * 10 ^ power := Nat.mul_pos positive (Nat.pow_pos (by decide))
  have smaller : significand ≤ significand * 10 ^ power :=
    Nat.le_mul_of_pos_right _ (Nat.pow_pos (by decide))
  have first := whole _ 0 positive' (by decide) small
  rw [whole _ _ positive bound (by omega), ofScientific_whole positive (by omega)]
  rw [ofScientific_whole positive' (by decide)] at first
  simpa using first

end ExprScript.Number
