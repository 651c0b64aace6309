import ExprScript.Proofs.Number.Scientific

/-! # Rounding to the nearest number

A binary64 number attracts the rational numbers around it, up to the midpoints to its
neighbours; the midpoints go to the number with the even mantissa. Whatever a number
attracts is rounded to it, since the mantissa and the two further bits that rounding
works with represent a rational number as exactly as is needed.
-/

namespace ExprScript.Number

open Float.Model Float.Model.UnpackedFloat

/-! ## Extended mantissas -/

/-- The mantissa is the integer part of the value, and the two bits tell how the rest
compares to zero and to one half. -/
def Represents (extended : ExtendedMantissa) (value : ℚ) : Prop :=
  match extended.roundBit, extended.stickyBit with
  | false, false => value = extended.mantissa
  | false, true => extended.mantissa < value ∧ value < extended.mantissa + 1 / 2
  | true, false => value = extended.mantissa + 1 / 2
  | true, true => extended.mantissa + 1 / 2 < value ∧ value < extended.mantissa + 1

structure Nearest (whole : Nat) (value : ℚ) : Prop where
  lower : whole - 1 / 2 ≤ value
  upper : value ≤ whole + 1 / 2
  lower_of_odd : whole % 2 = 1 → whole - 1 / 2 < value
  upper_of_odd : whole % 2 = 1 → value < whole + 1 / 2

namespace Represents

variable {extended : ExtendedMantissa} {value : ℚ}

theorem exact (mantissa : Nat) :
    Represents (ExtendedMantissa.ofMantissaAndAccuracy mantissa .exact) mantissa := rfl

theorem bounds (represents : Represents extended value) :
    extended.mantissa ≤ value ∧ value < extended.mantissa + 1 := by
  rcases extended with ⟨mantissa, roundBit, stickyBit⟩
  cases roundBit <;> cases stickyBit <;> simp only [Represents] at represents <;>
    constructor <;> linarith

theorem shiftRightOne (represents : Represents extended value) :
    Represents extended.shiftRightOne (value / 2) := by
  rcases extended with ⟨mantissa, roundBit, stickyBit⟩
  have parts : ((mantissa / 2 : Nat) : ℚ) * 2 + (mantissa % 2 : Nat) = mantissa := by
    exact_mod_cast Nat.div_add_mod' mantissa 2
  rcases Nat.mod_two_eq_zero_or_one mantissa with even | odd
  · have bit : (mantissa % 2 != 0) = false := by rw [even]; rfl
    rw [even, Nat.cast_zero] at parts
    cases roundBit <;> cases stickyBit <;>
      simp only [Represents, ExtendedMantissa.shiftRightOne, bit, Bool.or_false, Bool.or_true]
        at represents ⊢ <;>
      first | linarith | (constructor <;> linarith)
  · have bit : (mantissa % 2 != 0) = true := by rw [odd]; rfl
    rw [odd, Nat.cast_one] at parts
    cases roundBit <;> cases stickyBit <;>
      simp only [Represents, ExtendedMantissa.shiftRightOne, bit, Bool.or_false, Bool.or_true]
        at represents ⊢ <;>
      first | linarith | (constructor <;> linarith)

theorem shiftRight (represents : Represents extended value) (count : Nat) :
    Represents (extended >>> count) (value / 2 ^ count) := by
  change Represents (count.repeat ExtendedMantissa.shiftRightOne extended) _
  induction count with
  | zero => simpa [Nat.repeat] using represents
  | succ count induction =>
      rw [Nat.repeat, pow_succ, ← div_div]
      exact induction.shiftRightOne

theorem roundedMantissa (represents : Represents extended value) {whole : Nat}
    (nearest : Nearest whole value) : extended.roundedMantissa = whole := by
  rcases extended with ⟨mantissa, roundBit, stickyBit⟩
  rcases nearest with ⟨lower, upper, lower_of_odd, upper_of_odd⟩
  have atLeast : ∀ bound : Nat, (bound : ℚ) - 1 < whole → bound ≤ whole := by
    intro bound less
    have less : (bound : ℚ) < (whole + 1 : Nat) := by
      push_cast
      linarith
    exact Nat.lt_succ_iff.mp (Nat.cast_lt.mp less)
  have atMost : ∀ bound : Nat, (whole : ℚ) < bound + 1 → whole ≤ bound := by
    intro bound less
    have less : (whole : ℚ) < (bound + 1 : Nat) := by
      push_cast
      exact less
    exact Nat.lt_succ_iff.mp (Nat.cast_lt.mp less)
  unfold ExtendedMantissa.roundedMantissa
  cases roundBit with
  | false =>
      have below : whole ≤ mantissa := by
        apply atMost
        cases stickyBit <;> simp only [Represents] at represents <;> linarith
      have above : mantissa ≤ whole := by
        apply atLeast
        cases stickyBit <;> simp only [Represents] at represents <;> linarith
      cases stickyBit <;> exact Nat.le_antisymm above below
  | true =>
      cases stickyBit with
      | false =>
          simp only [Represents] at represents
          have below : whole ≤ mantissa + 1 := atMost _ (by push_cast; linarith)
          have above : mantissa ≤ whole := atLeast _ (by linarith)
          -- The value is half way between two whole numbers, and only an even one is nearest.
          have even : whole % 2 = 0 := by
            by_contra isOdd
            have isOdd : whole % 2 = 1 := by omega
            have less : whole ≤ mantissa := by
              apply atMost
              linarith [lower_of_odd isOdd]
            have greater : mantissa + 1 ≤ whole := by
              apply atLeast
              push_cast
              linarith [upper_of_odd isOdd]
            omega
          change mantissa + mantissa % 2 = whole
          omega
      | true =>
          simp only [Represents] at represents
          have below : whole ≤ mantissa + 1 := atMost _ (by push_cast; linarith)
          have above : mantissa + 1 ≤ whole := atLeast _ (by push_cast; linarith)
          exact Nat.le_antisymm above below

end Represents

theorem mantissa_ofMantissaAndAccuracy (mantissa : Nat) (accuracy : Accuracy) :
    (ExtendedMantissa.ofMantissaAndAccuracy mantissa accuracy).mantissa = mantissa := by
  rcases accuracy with _ | _ | _ | _ <;> rfl

/-! ## What a number attracts -/

/-- The mantissa and the exponent of a positive number, as they are kept. -/
structure Canonical (mantissa : Nat) (exponent : Int) : Prop where
  positive : 0 < mantissa
  small : mantissa < 2 ^ 53
  low : -1074 ≤ exponent
  high : exponent ≤ 971
  full : exponent = -1074 ∨ 2 ^ 52 ≤ mantissa

/-- The distance to the midpoint below, in units of the last place. The neighbour below a
power of two is only half as far away, except at the bottom of the range. -/
def gapBelow (mantissa : Nat) (exponent : Int) : ℚ :=
  if mantissa = 2 ^ 52 ∧ -1074 < exponent then 1 / 4 else 1 / 2

theorem gapBelow_bounds (mantissa : Nat) (exponent : Int) :
    0 < gapBelow mantissa exponent ∧ gapBelow mantissa exponent ≤ 1 / 2 := by
  unfold gapBelow
  split <;> norm_num

/-- The value lies between the midpoints to the neighbours of `mantissa * 2 ^ exponent`, and
on a midpoint only if the mantissa is even. -/
structure Attracts (mantissa : Nat) (exponent : Int) (value : ℚ) : Prop where
  lower : (mantissa - gapBelow mantissa exponent) * 2 ^ exponent ≤ value
  upper : value ≤ (mantissa + 1 / 2) * 2 ^ exponent
  lower_of_odd : mantissa % 2 = 1 → (mantissa - gapBelow mantissa exponent) * 2 ^ exponent < value
  upper_of_odd : mantissa % 2 = 1 → value < (mantissa + 1 / 2) * 2 ^ exponent

section

variable {mantissa start : Nat} {exponent level : Int} {accuracy : Accuracy} {value : ℚ}

theorem two_zpow_pos (exponent : Int) : (0 : ℚ) < 2 ^ exponent := zpow_pos two_pos exponent

theorem two_zpow_add (first second : Int) : (2 : ℚ) ^ (first + second) = 2 ^ first * 2 ^ second :=
  zpow_add₀ two_ne_zero first second

theorem lt_of_two_zpow_lt {first second : Int} (less : (2 : ℚ) ^ first < 2 ^ second) :
    first < second :=
  (zpow_lt_zpow_iff_right₀ one_lt_two).mp less

/-- The value lies in the binade of what represents it. -/
theorem Represents.binade
    (represents : Represents (ExtendedMantissa.ofMantissaAndAccuracy start accuracy)
      (value / 2 ^ level)) :
    (start ≠ 0 → 2 ^ (totalExponent start level - 1) ≤ value) ∧
      value < 2 ^ totalExponent start level := by
  have bounds := represents.bounds
  rw [mantissa_ofMantissaAndAccuracy, le_div_iff₀ (two_zpow_pos level),
    div_lt_iff₀ (two_zpow_pos level)] at bounds
  have high : (start : ℚ) + 1 ≤ 2 ^ (start.log2 + 1) := by
    exact_mod_cast (Nat.lt_log2_self : start < 2 ^ (start.log2 + 1))
  have scale := two_zpow_pos level
  constructor
  · intro nonzero
    have low : (2 : ℚ) ^ start.log2 ≤ start := by exact_mod_cast Nat.log2_self_le nonzero
    have level' : totalExponent start level - 1 = (start.log2 : Nat) + level := by
      unfold totalExponent
      omega
    rw [level', two_zpow_add, zpow_natCast]
    exact (mul_le_mul_of_nonneg_right low scale.le).trans bounds.1
  · have level' : totalExponent start level = (start.log2 + 1 : Nat) + level := by
      unfold totalExponent
      omega
    rw [level', two_zpow_add, zpow_natCast]
    exact bounds.2.trans_le (mul_le_mul_of_nonneg_right high scale.le)

/-- The exponent that a value is rounded with is that of the number that attracts it, unless
the value is below the power of two that it is rounded to. -/
theorem targetExponent_cases (canonical : Canonical mantissa exponent)
    (attracts : Attracts mantissa exponent value) {total : Int}
    (low : -1021 < total → 2 ^ (total - 1) ≤ value) (high : value < 2 ^ total) :
    Format.binary64.targetExponent total = exponent ∨
      (mantissa = 2 ^ 52 ∧ -1074 < exponent ∧ value < 2 ^ (52 + exponent)) ∧
        Format.binary64.targetExponent total = exponent - 1 := by
  have target : Format.binary64.targetExponent total = max (total - 53) (-1074) := rfl
  have scale := two_zpow_pos exponent
  have gap := gapBelow_bounds mantissa exponent
  have lower := attracts.lower
  have notAbove : -1021 < total → total - 1 < 53 + exponent := by
    intro isNormal
    apply lt_of_two_zpow_lt
    have small : (mantissa : ℚ) + 1 ≤ 2 ^ 53 := by exact_mod_cast canonical.small
    calc (2 : ℚ) ^ (total - 1)
        ≤ (mantissa + 1 / 2) * 2 ^ exponent := (low isNormal).trans attracts.upper
      _ < 2 ^ 53 * 2 ^ exponent := mul_lt_mul_of_pos_right (by linarith) scale
      _ = 2 ^ (53 + exponent) := (two_zpow_add 53 exponent).symm
  rcases canonical.full with isLowest | full
  · left
    omega
  have full' : (2 ^ 52 : ℚ) ≤ mantissa := by exact_mod_cast full
  have half : (2 : ℚ) ^ (51 : Int) + 1 ≤ 2 ^ 52 := by norm_num
  have whole : (2 : ℚ) ^ (52 : Int) = 2 ^ 52 := by norm_num
  rcases lt_or_ge value (2 ^ (52 + exponent)) with isBelow | isAbove
  · have isPower : mantissa = 2 ^ 52 := by
      by_contra other
      have larger : (2 ^ 52 + 1 : ℚ) ≤ mantissa := by
        exact_mod_cast Nat.lt_of_le_of_ne full (Ne.symm other)
      have more : (2 : ℚ) ^ (52 : Int) * 2 ^ exponent ≤
          (mantissa - gapBelow mantissa exponent) * 2 ^ exponent :=
        mul_le_mul_of_nonneg_right (by linarith) scale.le
      rw [two_zpow_add] at isBelow
      linarith
    have atLeast : 51 + exponent < total := by
      apply lt_of_two_zpow_lt
      rw [two_zpow_add]
      have more : (2 : ℚ) ^ (51 : Int) * 2 ^ exponent ≤
          (mantissa - gapBelow mantissa exponent) * 2 ^ exponent :=
        mul_le_mul_of_nonneg_right (by linarith) scale.le
      linarith
    have atMost : -1021 < total → total - 1 < 52 + exponent :=
      fun isNormal => lt_of_two_zpow_lt ((low isNormal).trans_lt isBelow)
    have bottom := canonical.low
    rcases bottom.lt_or_eq with above | isLowest
    · exact .inr ⟨⟨isPower, above, isBelow⟩, by omega⟩
    · left
      omega
  · left
    have atLeast : 52 + exponent < total := lt_of_two_zpow_lt (isAbove.trans_lt high)
    have bottom := canonical.low
    omega

/-- The value is brought to the exponent that it is rounded with. -/
theorem shiftToTargetExponent_represents
    (represents : Represents (ExtendedMantissa.ofMantissaAndAccuracy start accuracy)
      (value / 2 ^ level))
    (reached : level ≤ Format.binary64.targetExponent (totalExponent start level)) :
    ∃ extended, shiftToTargetExponent .binary64 start level accuracy =
        (extended, Format.binary64.targetExponent (totalExponent start level)) ∧
      Represents extended
        (value / 2 ^ Format.binary64.targetExponent (totalExponent start level)) := by
  unfold shiftToTargetExponent shiftToExponent
  generalize Format.binary64.targetExponent (totalExponent start level) = target at reached
  rcases Int.le.dest reached with ⟨count, rfl⟩
  have amount : (level + count - level).toNat = count := by omega
  dsimp only
  rw [amount]
  refine ⟨_, rfl, ?_⟩
  rw [two_zpow_add, zpow_natCast, ← div_div]
  exact represents.shiftRight count

theorem shiftToTargetExponent_canonical (canonical : Canonical mantissa exponent) :
    shiftToTargetExponent .binary64 mantissa exponent .exact =
      (ExtendedMantissa.ofMantissaAndAccuracy mantissa .exact, exponent) := by
  have length := (Nat.log2_lt (Nat.ne_of_gt canonical.positive)).mpr canonical.small
  have bottom := canonical.low
  have amount : (Format.binary64.targetExponent (totalExponent mantissa exponent) -
      exponent).toNat = 0 := by
    simp only [Format.targetExponent, totalExponent, Format.minExponent, Format.mantissaBits]
    omega
  simp only [shiftToTargetExponent, shiftToExponent, amount]
  change (_, exponent + 0) = _
  rw [Int.add_zero]
  rfl

theorem roundWithAccuracy_of_shifts {first : ExtendedMantissa} {middle : Int}
    (shifted : shiftToTargetExponent .binary64 start level accuracy = (first, middle))
    (shifted' : shiftToTargetExponent .binary64 first.roundedMantissa middle .exact =
      (ExtendedMantissa.ofMantissaAndAccuracy mantissa .exact, exponent))
    (positive : 0 < mantissa) :
    roundWithAccuracy .binary64 .positive start level accuracy =
      .finite .positive mantissa exponent positive := by
  unfold roundWithAccuracy
  simp only [shifted, shifted']
  exact dif_neg (Nat.ne_of_gt positive)

/-- Whatever a number attracts is rounded to it. -/
theorem roundWithAccuracy_eq (canonical : Canonical mantissa exponent)
    (attracts : Attracts mantissa exponent value) (filled : start = 0 → level ≤ -1074)
    (represents : Represents (ExtendedMantissa.ofMantissaAndAccuracy start accuracy)
      (value / 2 ^ level))
    (reached : level ≤ Format.binary64.targetExponent (totalExponent start level)) :
    roundWithAccuracy .binary64 .positive start level accuracy =
      .finite .positive mantissa exponent canonical.positive := by
  rcases represents.binade with ⟨low, high⟩
  have low : -1021 < totalExponent start level → 2 ^ (totalExponent start level - 1) ≤ value := by
    intro isNormal
    apply low
    rintro rfl
    have bottom := filled rfl
    have total : totalExponent 0 level = 1 + level := by simp [totalExponent]
    omega
  rcases shiftToTargetExponent_represents represents reached with ⟨first, shifted, represents'⟩
  have scale := two_zpow_pos exponent
  have gap := gapBelow_bounds mantissa exponent
  rcases targetExponent_cases canonical attracts low high with
    same | ⟨⟨isPower, above, below⟩, less⟩
  · rw [same] at shifted represents'
    have least : ((mantissa : ℚ) - 1 / 2) * 2 ^ exponent ≤
        (mantissa - gapBelow mantissa exponent) * 2 ^ exponent :=
      mul_le_mul_of_nonneg_right (by linarith) scale.le
    have nearest : Nearest mantissa (value / 2 ^ exponent) := {
      lower := (le_div_iff₀ scale).mpr (least.trans attracts.lower)
      upper := (div_le_iff₀ scale).mpr attracts.upper
      lower_of_odd := fun odd =>
        (lt_div_iff₀ scale).mpr (least.trans_lt (attracts.lower_of_odd odd))
      upper_of_odd := fun odd => (div_lt_iff₀ scale).mpr (attracts.upper_of_odd odd) }
    apply roundWithAccuracy_of_shifts shifted _ canonical.positive
    rw [represents'.roundedMantissa nearest]
    exact shiftToTargetExponent_canonical canonical
  · -- The mantissa is rounded up to the next power of two and loses its last bit.
    rw [less] at shifted represents'
    subst isPower
    have isQuarter : gapBelow (2 ^ 52) exponent = 1 / 4 := if_pos ⟨rfl, above⟩
    have twice : (2 : ℚ) ^ exponent = 2 * 2 ^ (exponent - 1) := by
      rw [← zpow_one_add₀ two_ne_zero]
      congr 1
      omega
    have lower := attracts.lower
    rw [isQuarter, twice] at lower
    rw [two_zpow_add, twice] at below
    push_cast at lower
    have scale' := two_zpow_pos (exponent - 1)
    have nearest : Nearest (2 ^ 53) (value / 2 ^ (exponent - 1)) := {
      lower := by
        rw [le_div_iff₀ scale']
        push_cast
        linarith
      upper := by
        rw [div_le_iff₀ scale']
        push_cast
        norm_num at below ⊢
        linarith
      lower_of_odd := fun odd => absurd odd (by decide)
      upper_of_odd := fun odd => absurd odd (by decide) }
    have shifted' : shiftToTargetExponent .binary64 (2 ^ 53) (exponent - 1) .exact =
        (ExtendedMantissa.ofMantissaAndAccuracy (2 ^ 52) .exact, exponent) := by
      have amount : (Format.binary64.targetExponent (totalExponent (2 ^ 53) (exponent - 1)) -
          (exponent - 1)).toNat = 1 := by
        have length : (2 ^ 53 : Nat).log2 = 53 := Nat.log2_two_pow
        simp only [Format.targetExponent, totalExponent, Format.minExponent, Format.mantissaBits,
          length]
        omega
      simp only [shiftToTargetExponent, shiftToExponent, amount]
      change (_, exponent - 1 + 1) = _
      rw [Int.sub_add_cancel]
      rfl
    apply roundWithAccuracy_of_shifts shifted _ canonical.positive
    rw [represents'.roundedMantissa nearest]
    exact shifted'

end

end ExprScript.Number
