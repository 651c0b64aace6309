import ExprScript.Proofs.Number.Rounding

/-! # Decimals are rounded to the nearest number

A decimal that a number attracts is read as the number, whether it is multiplied or
divided by a power of ten, and whether the power is looked up or computed.
-/

namespace ExprScript.Number

open Float.Model Float.Model.UnpackedFloat

/-! ## Quotients -/

theorem represents_quotient (dividend : Nat) {divisor : Nat} (positive : 0 < divisor) :
    Represents (ExtendedMantissa.ofMantissaAndAccuracy (dividend / divisor)
      (accuracyOfFraction (dividend % divisor) divisor)) (dividend / divisor : ℚ) := by
  have parts : ((dividend / divisor : Nat) : ℚ) * divisor + (dividend % divisor : Nat) =
      dividend := by
    exact_mod_cast Nat.div_add_mod' dividend divisor
  have small : ((dividend % divisor : Nat) : ℚ) < divisor := by
    exact_mod_cast Nat.mod_lt dividend positive
  have positive' : (0 : ℚ) < divisor := by exact_mod_cast positive
  generalize dividend / divisor = quotient at *
  generalize dividend % divisor = rest at *
  have value : (dividend / divisor : ℚ) = quotient + rest / divisor := by
    rw [← parts, add_div, mul_div_cancel_right₀ _ positive'.ne']
  rw [value]
  unfold accuracyOfFraction
  split
  · next isZero => simp [Represents, ExtendedMantissa.ofMantissaAndAccuracy, isZero]
  · next nonzero =>
      have nonzero : (0 : ℚ) < rest := by exact_mod_cast Nat.pos_of_ne_zero nonzero
      have above : (0 : ℚ) < rest / divisor := div_pos nonzero positive'
      have below : (rest / divisor : ℚ) < 1 := (div_lt_one positive').mpr small
      rcases order : compare (2 * rest) divisor with _ | _ | _
      · have less : (2 * rest : ℚ) < divisor := by exact_mod_cast Nat.compare_eq_lt.mp order
        have less : (rest / divisor : ℚ) < 1 / 2 := by
          rw [div_lt_iff₀ positive']
          linarith
        exact ⟨lt_add_of_pos_right _ above, (add_lt_add_iff_left _).mpr less⟩
      · have equal : (2 * rest : ℚ) = divisor := by exact_mod_cast Nat.compare_eq_eq.mp order
        have equal : (rest / divisor : ℚ) = 1 / 2 := by
          rw [div_eq_iff positive'.ne']
          linarith
        exact congrArg (_ + ·) equal
      · have greater : (divisor : ℚ) < 2 * rest := by exact_mod_cast Nat.compare_eq_gt.mp order
        have greater : (1 / 2 : ℚ) < rest / divisor := by
          rw [lt_div_iff₀ positive']
          linarith
        exact ⟨(add_lt_add_iff_left _).mpr greater, (add_lt_add_iff_left _).mpr below⟩

section

variable {mantissa : Nat} {exponent : Int}

/-- A quotient that a number attracts is rounded to it. -/
theorem div_eq {dividend divisor : Nat} {level level' : Int}
    (canonical : Canonical mantissa exponent) (positive : 0 < dividend) (positive' : 0 < divisor)
    (attracts : Attracts mantissa exponent (dividend * 2 ^ level / (divisor * 2 ^ level'))) :
    UnpackedFloat.div .binary64 (.finite .positive dividend level positive)
        (.finite .positive divisor level' positive') =
      .finite .positive mantissa exponent canonical.positive := by
  simp only [UnpackedFloat.div, divCore]
  generalize isTarget : min (level - level') _ = target
  rcases Int.le.dest (isTarget ▸ min_le_left (level - level') _ : target ≤ level - level') with
    ⟨count, sum⟩
  have amount : (level - level' - target).toNat = count := by omega
  rw [amount, Nat.shiftLeft_eq]
  have shifted : (dividend * 2 ^ level / (divisor * 2 ^ level') / 2 ^ target : ℚ) =
      (dividend * 2 ^ count : Nat) / divisor := by
    have level_eq : level = target + level' + count := by omega
    rw [level_eq, two_zpow_add, two_zpow_add, zpow_natCast, div_div]
    push_cast
    rw [div_eq_div_iff]
    · ring
    · have := two_zpow_pos target
      have := two_zpow_pos level'
      positivity
    · positivity
  -- Above the bottom of the range the quotient has enough bits.
  have large : -1074 < target → 2 ^ 52 ≤ dividend * 2 ^ count / divisor := by
    intro above
    have bits : divisor.log2 + 53 ≤ dividend.log2 + count := by
      have bound := isTarget ▸ min_le_right (level - level') _
      simp only [Format.targetExponent, totalExponent, Format.minExponent,
        Format.mantissaBits] at bound
      omega
    rw [Nat.le_div_iff_mul_le positive']
    calc 2 ^ 52 * divisor ≤ 2 ^ 52 * 2 ^ (divisor.log2 + 1) :=
          Nat.mul_le_mul_left _ Nat.lt_log2_self.le
      _ = 2 ^ (divisor.log2 + 53) := by rw [← Nat.pow_add]; congr 1; omega
      _ ≤ 2 ^ (dividend.log2 + count) := Nat.pow_le_pow_right two_pos bits
      _ = 2 ^ dividend.log2 * 2 ^ count := Nat.pow_add ..
      _ ≤ dividend * 2 ^ count :=
          Nat.mul_le_mul_right _ (Nat.log2_self_le (Nat.ne_of_gt positive))
  apply roundWithAccuracy_eq canonical attracts
  · intro isZero
    rw [isZero] at large
    by_contra above
    exact absurd (large (by omega)) (by decide)
  · rw [shifted]
    exact represents_quotient _ positive'
  · simp only [Format.targetExponent, totalExponent, Format.minExponent, Format.mantissaBits]
    rcases Int.lt_or_le (-1074) target with above | bottom
    · have bits := (Nat.le_log2 (by have := large above; omega)).mpr (large above)
      omega
    · omega

/-! ## Decimals -/

theorem Attracts.size (canonical : Canonical mantissa exponent) {value : ℚ}
    (attracts : Attracts mantissa exponent value) :
    2 ^ (-1075 : Int) ≤ value ∧ value < 2 ^ (1024 : Int) := by
  have gap := gapBelow_bounds mantissa exponent
  have scale := two_zpow_pos exponent
  have positive : (1 : ℚ) ≤ mantissa := by exact_mod_cast canonical.positive
  constructor
  · have half : (2 : ℚ) ^ (-1 : Int) ≤ mantissa - gapBelow mantissa exponent := by
      norm_num
      linarith
    calc (2 : ℚ) ^ (-1075 : Int) = 2 ^ (-1 : Int) * 2 ^ (-1074 : Int) := by
          rw [← two_zpow_add]
          rfl
      _ ≤ (mantissa - gapBelow mantissa exponent) * 2 ^ exponent :=
          mul_le_mul half (zpow_le_zpow_right₀ one_le_two canonical.low) (two_zpow_pos _).le
            (by linarith)
      _ ≤ value := attracts.lower
  · have small : (mantissa : ℚ) + 1 ≤ 2 ^ (53 : Int) := by exact_mod_cast canonical.small
    calc value ≤ (mantissa + 1 / 2) * 2 ^ exponent := attracts.upper
      _ < 2 ^ (53 : Int) * 2 ^ exponent := mul_lt_mul_of_pos_right (by linarith) scale
      _ ≤ 2 ^ (53 : Int) * 2 ^ (971 : Int) :=
          mul_le_mul_of_nonneg_left (zpow_le_zpow_right₀ one_le_two canonical.high)
            (two_zpow_pos _).le
      _ = 2 ^ (1024 : Int) := (two_zpow_add 53 971).symm

theorem zpow_eq_div {base : ℚ} (nonzero : base ≠ 0) (exponent : Int) :
    base ^ exponent = base ^ exponent.toNat / base ^ (-exponent).toNat := by
  have difference : exponent = exponent.toNat - (-exponent).toNat := by omega
  conv_lhs => rw [difference, zpow_sub₀ nonzero, zpow_natCast, zpow_natCast]

theorem lt_of_ten_pow_lt_two_pow {first second : Nat} (less : (10 : ℚ) ^ first < 2 ^ second) :
    3 * first < second := by
  have powers : (2 : ℚ) ^ (3 * first) ≤ 10 ^ first := by
    rw [pow_mul]
    exact pow_le_pow_left₀ (by norm_num) (by norm_num) first
  exact (pow_lt_pow_iff_right₀ one_lt_two).mp (powers.trans_lt less)

theorem ten_pow_bounds {number : Nat} (nonzero : number ≠ 0) :
    10 ^ (3 * number.log2 / 10) ≤ number ∧ number < 10 ^ (number.log2 / 3 + 1) := by
  constructor
  · have tenth : (10 ^ (3 * number.log2 / 10)) ^ 10 ≤ (2 ^ number.log2) ^ 10 := by
      calc (10 ^ (3 * number.log2 / 10)) ^ 10 = 10 ^ (3 * number.log2 / 10 * 10) :=
            (pow_mul ..).symm
        _ ≤ 10 ^ (3 * number.log2) :=
            Nat.pow_le_pow_right (by decide) (Nat.div_mul_le_self _ 10)
        _ = (10 ^ 3) ^ number.log2 := pow_mul ..
        _ ≤ (2 ^ 10) ^ number.log2 := Nat.pow_le_pow_left (by decide) _
        _ = (2 ^ number.log2) ^ 10 := pow_right_comm ..
    exact ((Nat.pow_le_pow_iff_left (by decide)).mp tenth).trans (Nat.log2_self_le nonzero)
  · calc number < 2 ^ (number.log2 + 1) := Nat.lt_log2_self
      _ ≤ 2 ^ (3 * (number.log2 / 3 + 1)) := Nat.pow_le_pow_right (by decide) (by omega)
      _ = (2 ^ 3) ^ (number.log2 / 3 + 1) := pow_mul ..
      _ ≤ 10 ^ (number.log2 / 3 + 1) := Nat.pow_le_pow_left (by decide) _

variable {significand power : Nat}

theorem ofScientific_product (canonical : Canonical mantissa exponent)
    (attracts : Attracts mantissa exponent (significand * 10 ^ power)) :
    Float.ofScientific significand false power =
      .ofModel (.pack (.finite .positive mantissa exponent canonical.positive)) := by
  rcases attracts.size canonical with ⟨low, high⟩
  have positive : 0 < significand := by
    apply Nat.pos_of_ne_zero
    rintro rfl
    rw [Nat.cast_zero, zero_mul] at low
    exact absurd low (not_le.mpr (two_zpow_pos _))
  have moderate : 3 * power < 1024 := by
    apply lt_of_ten_pow_lt_two_pow
    have whole : (1 : ℚ) ≤ significand := by exact_mod_cast positive
    have high : (significand * 10 ^ power : ℚ) < 2 ^ 1024 := by exact_mod_cast high
    exact (le_mul_of_one_le_left (by positivity) whole).trans_lt high
  have positive' : 0 < significand * 10 ^ power := Nat.mul_pos positive (Nat.pow_pos (by decide))
  have large : 2 ^ 53 ≤ significand * 10 ^ power * 2 ^ 53 := Nat.le_mul_of_pos_left _ positive'
  rw [ofScientific_whole positive (by omega)]
  congr 2
  apply roundWithAccuracy_eq canonical attracts
  · omega
  · have value : (significand * 10 ^ power / 2 ^ (-53 : Int) : ℚ) =
        (significand * 10 ^ power * 2 ^ 53 : Nat) := by
      push_cast
      rw [zpow_neg, div_inv_eq_mul]
      norm_num
    rw [value]
    exact .exact _
  · apply reached_of_bits
    exact (Nat.le_log2 (by omega)).mpr large

theorem ofScientific_quotient (canonical : Canonical mantissa exponent) (some : 0 < power)
    (attracts : Attracts mantissa exponent (significand / 10 ^ power)) :
    Float.ofScientific significand true power =
      .ofModel (.pack (.finite .positive mantissa exponent canonical.positive)) := by
  rcases attracts.size canonical with ⟨low, high⟩
  have ten : (0 : ℚ) < 10 ^ power := by positivity
  have positive : 0 < significand := by
    apply Nat.pos_of_ne_zero
    rintro rfl
    rw [Nat.cast_zero, zero_div] at low
    exact absurd low (not_le.mpr (two_zpow_pos _))
  unfold Float.ofScientific
  split
  · next small =>
      rcases unpack_toFloat positive small.1 with ⟨first, unpacked⟩
      have within : power < Float.exactlyRepresentablePowersOfTen.size :=
        Nat.lt_of_le_of_lt small.2 (by decide)
      have isPower := isPowerOfTen_table power within
      change Float.ofModel (.pack (UnpackedFloat.div .binary64
        significand.toUInt64.toFloat.toModel.unpack
        (Float.exactlyRepresentablePowersOfTen[power]).toModel.unpack)) = _
      rw [unpacked]
      generalize Float.exactlyRepresentablePowersOfTen[power].toModel.unpack = table at isPower
      match table, isPower with
      | .finite .positive divisor level second, ⟨_, value⟩ =>
          congr 2
          apply div_eq canonical
          rcases fullMantissa_bounds positive small.1 with ⟨length, -, -⟩
          have dividend : ((significand * 2 ^ (52 - significand.log2) : Nat) : ℚ) *
              2 ^ ((significand.log2 : Int) - 52) = significand := by
            have back : (significand.log2 : Int) - 52 = -((52 - significand.log2 : Nat) : Int) := by
              omega
            rw [back, zpow_neg, zpow_natCast]
            push_cast
            exact mul_inv_cancel_right₀ (by positivity) _
          have isTen : (divisor : ℚ) * 2 ^ level = 10 ^ power := by
            rw [zpow_eq_div two_ne_zero, mul_div_assoc', div_eq_iff (by positivity)]
            exact_mod_cast value
          rwa [dividend, isTen]
  · have bottom : (10 : ℚ) ^ power < 2 ^ (significand.log2 + 1 + 1075) := by
      have bits : (significand : ℚ) < 2 ^ (significand.log2 + 1) := by
        exact_mod_cast (Nat.lt_log2_self : significand < 2 ^ (significand.log2 + 1))
      rw [zpow_neg, le_div_iff₀ ten, inv_mul_le_iff₀ (two_zpow_pos _)] at low
      have low : (10 : ℚ) ^ power ≤ 2 ^ 1075 * significand := by exact_mod_cast low
      calc (10 : ℚ) ^ power ≤ 2 ^ 1075 * significand := low
        _ < 2 ^ 1075 * 2 ^ (significand.log2 + 1) := mul_lt_mul_of_pos_left bits (by positivity)
        _ = 2 ^ (significand.log2 + 1 + 1075) := by rw [← pow_add, add_comm]
    have moderate := lt_of_ten_pow_lt_two_pow bottom
    change Float.ofModel (.pack (UnpackedFloat.ofScientific .binary64 significand
      (Int.negOfNat power))) = _
    congr 2
    unfold UnpackedFloat.ofScientific
    rw [Int.negOfNat_eq, Int.ofNat_eq_natCast, dif_neg (by omega),
      if_neg (by change ¬ -(power : Int) > 2048; omega), if_neg, if_neg (by omega)]
    · apply div_eq canonical
      rw [neg_neg, Int.toNat_natCast]
      push_cast
      simpa using attracts
    · change ¬ -(power : Int) < -(2048 + significand.log2)
      omega

theorem Decimal.toFloat_eq {decimal : Decimal} (canonical : Canonical mantissa exponent)
    (attracts : Attracts mantissa exponent (decimal.significand * 10 ^ decimal.exponent)) :
    decimal.toFloat =
      .ofModel (.pack (.finite .positive mantissa exponent canonical.positive)) := by
  rcases attracts.size canonical with ⟨low, high⟩
  rcases decimal with ⟨significand, place⟩
  dsimp only at attracts low high
  have ten : (0 : ℚ) < 10 ^ place := zpow_pos (by norm_num) place
  have nonzero : significand ≠ 0 := by
    rintro rfl
    rw [Nat.cast_zero, zero_mul] at low
    exact absurd low (not_le.mpr (two_zpow_pos _))
  rcases ten_pow_bounds nonzero with ⟨least, most⟩
  have tooSmall : ¬ (Int.ofNat (significand.log2 / 3 + 1) + place < -400) := by
    intro small
    rcases Int.eq_ofNat_of_zero_le (by omega :
      0 ≤ -(Int.ofNat (significand.log2 / 3 + 1) + place)) with ⟨size, equal⟩
    have most : (significand : ℚ) < 10 ^ (significand.log2 / 3 + 1) := by exact_mod_cast most
    have below : (2 : ℚ) ^ (-1075 : Int) < 10 ^ (-(size : Int)) := by
      calc (2 : ℚ) ^ (-1075 : Int) ≤ significand * 10 ^ place := low
        _ < 10 ^ (significand.log2 / 3 + 1) * 10 ^ place := mul_lt_mul_of_pos_right most ten
        _ = 10 ^ (-(size : Int)) := by
            rw [← zpow_natCast, ← zpow_add₀ (by norm_num), ← equal, neg_neg]
            rfl
    rw [zpow_neg, zpow_neg, inv_lt_inv₀ (two_zpow_pos _) (by positivity)] at below
    have bound : 3 * size < 1075 := lt_of_ten_pow_lt_two_pow (by exact_mod_cast below)
    omega
  have tooLarge : ¬ (400 < Int.ofNat (3 * significand.log2 / 10) + place) := by
    intro large
    rcases Int.eq_ofNat_of_zero_le (by omega :
      0 ≤ Int.ofNat (3 * significand.log2 / 10) + place) with ⟨size, equal⟩
    have least : (10 : ℚ) ^ (3 * significand.log2 / 10) ≤ significand := by exact_mod_cast least
    have above : (10 : ℚ) ^ size < 2 ^ (1024 : Int) := by
      calc (10 : ℚ) ^ size = 10 ^ (3 * significand.log2 / 10) * 10 ^ place := by
            rw [← zpow_natCast, ← zpow_natCast, ← zpow_add₀ (by norm_num), ← equal]
            rfl
        _ ≤ significand * 10 ^ place := mul_le_mul_of_nonneg_right least ten.le
        _ < 2 ^ (1024 : Int) := high
    have bound : 3 * size < 1024 := lt_of_ten_pow_lt_two_pow (by exact_mod_cast above)
    omega
  unfold Decimal.toFloat
  dsimp only
  rw [if_neg, if_neg tooLarge]
  · rcases Int.lt_or_le place 0 with isNegative | isWhole
    · rw [decide_eq_true isNegative]
      apply ofScientific_quotient canonical (by omega)
      have value : place = -(place.natAbs : Int) := by omega
      rwa [value, zpow_neg, zpow_natCast, ← div_eq_mul_inv] at attracts
    · rw [decide_eq_false (by omega)]
      apply ofScientific_product canonical
      have value : place = (place.natAbs : Int) := by omega
      rwa [value, zpow_natCast] at attracts
  · simp only [Bool.or_eq_true, decide_eq_true_eq, not_or]
    exact ⟨nonzero, tooSmall⟩

end

end ExprScript.Number
