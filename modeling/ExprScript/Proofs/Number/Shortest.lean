import ExprScript.Proofs.Number.Conversion
import ExprScript.Proofs.Number.Signed

/-! # The shortest digits of a number are read as the number

Seventeen digits are enough to hit what a number attracts, since the grid of the decimals
with so many digits is finer than the numbers are. Whatever decimal is found is read as
the number.
-/

namespace ExprScript.Number

open Float.Model Float.Model.UnpackedFloat

/-! ## The place of the first digit -/

theorem decimalLength_bounds {number : Nat} (positive : 0 < number) :
    0 < decimalLength number ∧ 10 ^ (decimalLength number - 1) ≤ number := by
  have length : decimalLength number = (Nat.toDigits 10 number).length :=
    if_neg (Nat.ne_of_gt positive)
  have some : 0 < (Nat.toDigits 10 number).length := Nat.length_toDigits_pos
  rw [length]
  refine ⟨some, ?_⟩
  rcases Nat.eq_zero_or_pos ((Nat.toDigits 10 number).length - 1) with isZero | more
  · rw [isZero]
    exact positive
  · by_contra small
    have shorter := (Nat.length_toDigits_le_iff (by decide) more).mpr (not_le.mp small)
    omega

theorem lt_pow_decimalLength (number : Nat) : number < 10 ^ decimalLength number := by
  unfold decimalLength
  split
  · next isZero => simp [isZero]
  · exact (Nat.length_toDigits_le_iff (by decide) Nat.length_toDigits_pos).mp le_rfl

theorem leadingPlace_le {mantissa : Nat} (positive : 0 < mantissa) (exponent : Int) :
    (10 : ℚ) ^ (leadingPlace mantissa exponent - 1) ≤ mantissa * 2 ^ exponent := by
  rw [zpow_eq_div two_ne_zero, mul_div_assoc', le_div_iff₀ (by positivity)]
  unfold leadingPlace
  simp only [Nat.shiftLeft_eq, Nat.one_mul]
  have numerator : 0 < mantissa * 2 ^ exponent.toNat := by positivity
  have denominator : 0 < 2 ^ (-exponent).toNat := by positivity
  have cast : ((mantissa : ℚ) * 2 ^ exponent.toNat) = (mantissa * 2 ^ exponent.toNat : Nat) := by
    push_cast
    rfl
  have cast' : (2 : ℚ) ^ (-exponent).toNat = (2 ^ (-exponent).toNat : Nat) := by
    push_cast
    rfl
  rw [cast, cast']
  generalize mantissa * 2 ^ exponent.toNat = above at *
  generalize 2 ^ (-exponent).toNat = below at *
  split
  · next large =>
      have some : 0 < above / below := Nat.div_pos large denominator
      rcases decimalLength_bounds some with ⟨length, least⟩
      have place : (decimalLength (above / below) : Int) - 1 =
          (decimalLength (above / below) - 1 : Nat) := by omega
      rw [place, zpow_natCast]
      exact_mod_cast (Nat.le_div_iff_mul_le denominator).mp least
  · have less := lt_pow_decimalLength ((below - 1) / above)
    rw [Nat.div_lt_iff_lt_mul numerator] at less
    have most : (below : ℚ) ≤ 10 ^ decimalLength ((below - 1) / above) * above := by
      exact_mod_cast (by omega : below ≤ 10 ^ decimalLength ((below - 1) / above) * above)
    have place : (1 - Int.ofNat (decimalLength ((below - 1) / above)) - 1 : Int) =
        -(decimalLength ((below - 1) / above) : Nat) := by
      rw [Int.ofNat_eq_natCast]
      omega
    rw [place, zpow_neg, zpow_natCast, inv_mul_le_iff₀ (by positivity)]
    exact most

/-! ## The grid of decimals -/

theorem grid_factor (exponent place : Int) : ∃ factor : ℚ, 0 < factor ∧
    (2 : ℚ) ^ exponent = (10 ^ (-place).toNat * 2 ^ exponent.toNat : Nat) * factor ∧
    (10 : ℚ) ^ place = (10 ^ place.toNat * 2 ^ (-exponent).toNat : Nat) * factor := by
  refine ⟨(2 ^ (-exponent).toNat * 10 ^ (-place).toNat)⁻¹, by positivity, ?_, ?_⟩
  · rw [zpow_eq_div two_ne_zero, ← div_eq_mul_inv, div_eq_div_iff (by positivity) (by positivity)]
    push_cast
    ring
  · rw [zpow_eq_div (by norm_num : (10 : ℚ) ≠ 0), ← div_eq_mul_inv,
      div_eq_div_iff (by positivity) (by positivity)]
    push_cast
    ring

/-- The decimal lies in the interval, and on its ends only if they belong to it. -/
structure Interval.Holds (interval : Interval) (exponent : Int) (value : ℚ) : Prop where
  low : interval.low * 2 ^ exponent ≤ value
  high : value ≤ interval.high * 2 ^ exponent
  low_of_open : interval.closed = false → interval.low * 2 ^ exponent < value
  high_of_open : interval.closed = false → value < interval.high * 2 ^ exponent

variable {interval : Interval} {exponent place : Int} {tie : Tie} {candidate : Nat}

def Interval.isInside (interval : Interval) (scale unit candidate : Nat) : Bool :=
  if interval.closed then
    interval.low * scale ≤ candidate * unit && candidate * unit ≤ interval.high * scale
  else
    interval.low * scale < candidate * unit && candidate * unit < interval.high * scale

theorem Interval.isInside_iff {scale unit : Nat} {factor : ℚ} (positive : 0 < factor)
    (two : (2 : ℚ) ^ exponent = scale * factor) (ten : (10 : ℚ) ^ place = unit * factor) :
    interval.isInside scale unit candidate = true ↔
      interval.Holds exponent (candidate * 10 ^ place) := by
  have low : (interval.low * 2 ^ exponent : ℚ) = (interval.low * scale : Nat) * factor := by
    rw [two]
    push_cast
    ring
  have high : (interval.high * 2 ^ exponent : ℚ) = (interval.high * scale : Nat) * factor := by
    rw [two]
    push_cast
    ring
  have value : (candidate * 10 ^ place : ℚ) = (candidate * unit : Nat) * factor := by
    rw [ten]
    push_cast
    ring
  have le : ∀ first second : Nat, (first : ℚ) * factor ≤ second * factor ↔ first ≤ second :=
    fun first second => (mul_le_mul_iff_of_pos_right positive).trans Nat.cast_le
  have lt : ∀ first second : Nat, (first : ℚ) * factor < second * factor ↔ first < second :=
    fun first second => (mul_lt_mul_iff_of_pos_right positive).trans Nat.cast_lt
  unfold Interval.isInside
  constructor
  · intro inside
    split at inside
    · next isClosed =>
        rw [Bool.and_eq_true, decide_eq_true_eq, decide_eq_true_eq] at inside
        constructor
        · rw [low, value, le]
          exact inside.1
        · rw [high, value, le]
          exact inside.2
        · exact fun isOpen => absurd isClosed (isOpen ▸ Bool.false_ne_true)
        · exact fun isOpen => absurd isClosed (isOpen ▸ Bool.false_ne_true)
    · rw [Bool.and_eq_true, decide_eq_true_eq, decide_eq_true_eq] at inside
      constructor
      · rw [low, value, le]
        exact inside.1.le
      · rw [high, value, le]
        exact inside.2.le
      · intro _
        rw [low, value, lt]
        exact inside.1
      · intro _
        rw [high, value, lt]
        exact inside.2
  · intro ⟨lower, upper, lower', upper'⟩
    rw [low, value, le] at lower
    rw [high, value, le] at upper
    rw [low, value, lt] at lower'
    rw [high, value, lt] at upper'
    split
    · rw [Bool.and_eq_true, decide_eq_true_eq, decide_eq_true_eq]
      exact ⟨lower, upper⟩
    · next isOpen =>
        have isOpen := eq_false_of_ne_true isOpen
        rw [Bool.and_eq_true, decide_eq_true_eq, decide_eq_true_eq]
        exact ⟨lower' isOpen, upper' isOpen⟩

theorem holds_of_nearestOnGrid
    (found : interval.nearestOnGrid exponent place tie = some candidate) :
    interval.Holds exponent (candidate * 10 ^ place) := by
  rcases grid_factor exponent place with ⟨factor, positive, two, ten⟩
  unfold Interval.nearestOnGrid at found
  simp only [Nat.shiftLeft_eq, Nat.pow_eq] at found
  generalize 10 ^ (-place).toNat * 2 ^ exponent.toNat = scale at found two
  generalize 10 ^ place.toNat * 2 ^ (-exponent).toNat = unit at found ten
  apply (Interval.isInside_iff positive two ten).mp
  split at found
  · next first second =>
      have both : ∀ preferred : Bool, interval.isInside scale unit
          (if preferred then interval.centre * scale / unit + 1
            else interval.centre * scale / unit) = true := by
        intro preferred
        cases preferred with
        | false => exact first
        | true => exact second
      injection found with equal
      rw [← equal]
      exact both _
  · next first _ =>
      cases found
      exact first
  · next _ second =>
      cases found
      exact second
  · cases found

theorem nearestOnGrid_isSome (around : interval.low < interval.centre ∧
      interval.centre < interval.high)
    (fine : (10 : ℚ) ^ place < (interval.high - interval.low) * 2 ^ exponent) :
    (interval.nearestOnGrid exponent place tie).isSome = true := by
  rcases grid_factor exponent place with ⟨factor, positive, two, ten⟩
  unfold Interval.nearestOnGrid
  simp only [Nat.shiftLeft_eq, Nat.pow_eq]
  have some : 0 < 10 ^ place.toNat * 2 ^ (-exponent).toNat := by positivity
  generalize 10 ^ (-place).toNat * 2 ^ exponent.toNat = scale at two ⊢
  generalize 10 ^ place.toNat * 2 ^ (-exponent).toNat = unit at ten some ⊢
  have before := Nat.div_mul_le_self (interval.centre * scale) unit
  have behind := Nat.lt_div_mul_add some (a := interval.centre * scale)
  generalize interval.centre * scale / unit = lower at before behind ⊢
  have inside : interval.isInside scale unit lower = true ∨
      interval.isInside scale unit (lower + 1) = true := by
    by_contra neither
    rcases not_or.mp neither with ⟨first, second⟩
    rw [Interval.isInside_iff positive two ten] at first second
    have below : (lower * 10 ^ place : ℚ) ≤ interval.centre * 2 ^ exponent := by
      rw [two, ten]
      have before : (lower : ℚ) * unit ≤ interval.centre * scale := by exact_mod_cast before
      linarith [mul_le_mul_of_nonneg_right before positive.le]
    have above : (interval.centre * 2 ^ exponent : ℚ) < (lower + 1 : Nat) * 10 ^ place := by
      rw [two, ten]
      have behind : (interval.centre : ℚ) * scale < lower * unit + unit := by exact_mod_cast behind
      push_cast
      linarith [mul_lt_mul_of_pos_right behind positive]
    have scale' := two_zpow_pos exponent
    have low : (interval.low * 2 ^ exponent : ℚ) < interval.centre * 2 ^ exponent :=
      mul_lt_mul_of_pos_right (by exact_mod_cast around.1) scale'
    have high : (interval.centre * 2 ^ exponent : ℚ) < interval.high * 2 ^ exponent :=
      mul_lt_mul_of_pos_right (by exact_mod_cast around.2) scale'
    have first : (lower * 10 ^ place : ℚ) ≤ interval.low * 2 ^ exponent := by
      by_contra more
      have more := not_le.mp more
      exact first ⟨more.le, below.trans high.le, fun _ => more, fun _ => below.trans_lt high⟩
    have second : (interval.high * 2 ^ exponent : ℚ) ≤ (lower + 1 : Nat) * 10 ^ place := by
      by_contra less
      have less := not_le.mp less
      exact second ⟨(low.trans above).le, less.le, fun _ => low.trans above, fun _ => less⟩
    push_cast at second
    linarith
  split
  · rfl
  · rfl
  · rfl
  · next first second =>
      rcases inside with inside | inside
      · exact absurd inside (Bool.eq_false_iff.mp first)
      · exact absurd inside (Bool.eq_false_iff.mp second)

/-! ## The shortest decimal -/

variable {mantissa : Nat}

theorem Interval.around_eq (positive : 0 < mantissa) (exponent : Int) :
    ((Interval.around mantissa exponent).low : ℚ) = 4 * (mantissa - gapBelow mantissa exponent) ∧
      ((Interval.around mantissa exponent).high : ℚ) = 4 * (mantissa + 1 / 2) := by
  have bit : hiddenBit = 2 ^ 52 := rfl
  unfold Interval.around gapBelow
  simp only [bit]
  constructor
  · split
    · rw [Nat.cast_sub (by omega)]
      push_cast
      ring
    · rw [Nat.cast_sub (by omega)]
      push_cast
      ring
  · push_cast
    ring

theorem attracts_of_holds (positive : 0 < mantissa) {value : ℚ}
    (holds : (Interval.around mantissa exponent).Holds (exponent - 2) value) :
    Attracts mantissa exponent value := by
  rcases Interval.around_eq positive exponent with ⟨low, high⟩
  have quarter : (2 : ℚ) ^ exponent = 4 * 2 ^ (exponent - 2) := by
    have split : exponent = 2 + (exponent - 2) := by omega
    conv_lhs => rw [split, two_zpow_add]
    norm_num
  have isOpen : mantissa % 2 = 1 → (Interval.around mantissa exponent).closed = false := by
    intro odd
    simp [Interval.around, odd]
  rcases holds with ⟨lower, upper, lower', upper'⟩
  rw [low] at lower lower'
  rw [high] at upper upper'
  constructor
  · rw [quarter]
    linarith
  · rw [quarter]
    linarith
  · intro odd
    rw [quarter]
    linarith [lower' (isOpen odd)]
  · intro odd
    rw [quarter]
    linarith [upper' (isOpen odd)]

theorem Decimal.value_ofGrid (candidate digits : Nat) (place : Int) :
    ((Decimal.ofGrid candidate digits place).significand : ℚ) *
      10 ^ (Decimal.ofGrid candidate digits place).exponent = candidate * 10 ^ place := by
  unfold Decimal.ofGrid
  split
  · next isPower =>
      rw [isPower, Nat.pow_eq, zpow_add₀ (by norm_num), zpow_natCast]
      push_cast
      ring
  · rfl

theorem fine_of_canonical (canonical : Canonical mantissa exponent) :
    (10 : ℚ) ^ (leadingPlace mantissa exponent - 17) <
      ((Interval.around mantissa exponent).high - (Interval.around mantissa exponent).low) *
        2 ^ (exponent - 2) := by
  rcases Interval.around_eq canonical.positive exponent with ⟨low, high⟩
  have leading := leadingPlace_le canonical.positive exponent
  have scale := two_zpow_pos exponent
  have small : (mantissa : ℚ) < 2 ^ 53 := by exact_mod_cast canonical.small
  have split : leadingPlace mantissa exponent - 17 =
      leadingPlace mantissa exponent - 1 + (-16) := by omega
  have split' : exponent - 2 = exponent + (-2) := by omega
  have gap : (mantissa : ℚ) < 10 ^ 16 * (1 / 2 + gapBelow mantissa exponent) := by
    unfold gapBelow
    split
    · next isPower =>
        rw [isPower.1]
        norm_num
    · norm_num at small ⊢
      linarith
  rw [low, high, split, split', zpow_add₀ (by norm_num), two_zpow_add]
  calc (10 : ℚ) ^ (leadingPlace mantissa exponent - 1) * 10 ^ (-16 : Int)
      ≤ mantissa * 2 ^ exponent * 10 ^ (-16 : Int) :=
        mul_le_mul_of_nonneg_right leading (by positivity)
    _ < 10 ^ 16 * (1 / 2 + gapBelow mantissa exponent) * 2 ^ exponent * 10 ^ (-16 : Int) :=
        mul_lt_mul_of_pos_right (mul_lt_mul_of_pos_right gap scale) (by positivity)
    _ = (4 * (mantissa + 1 / 2) - 4 * (mantissa - gapBelow mantissa exponent)) *
        (2 ^ exponent * 2 ^ (-2 : Int)) := by
      norm_num
      ring

theorem shortest_attracts (canonical : Canonical mantissa exponent) (tie : Tie) :
    Attracts mantissa exponent ((shortest mantissa exponent tie).significand *
      10 ^ (shortest mantissa exponent tie).exponent) := by
  have around :
      (Interval.around mantissa exponent).low < (Interval.around mantissa exponent).centre ∧
        (Interval.around mantissa exponent).centre < (Interval.around mantissa exponent).high := by
    have positive := canonical.positive
    unfold Interval.around
    dsimp only
    constructor
    · split <;> omega
    · omega
  unfold shortest
  dsimp only
  generalize search : List.findSome? _ _ = result
  cases result with
  | none =>
      have missing := List.findSome?_eq_none_iff.mp search 16 (by decide)
      have found := @nearestOnGrid_isSome _ _ _ tie around (fine_of_canonical canonical)
      rw [Option.map_eq_none_iff] at missing
      rw [show (leadingPlace mantissa exponent - (16 + 1 : Nat)) =
        leadingPlace mantissa exponent - 17 from rfl] at missing
      rw [missing] at found
      cases found
  | some decimal =>
      rcases List.exists_of_findSome?_eq_some search with ⟨index, -, attempt⟩
      rcases Option.map_eq_some_iff.mp attempt with ⟨candidate, onGrid, rfl⟩
      rw [Option.getD_some, Decimal.value_ofGrid]
      exact attracts_of_holds canonical.positive (holds_of_nearestOnGrid onGrid)

/-! ## Reading the digits back -/

theorem canonical_of_bits {bits : Nat} (some : 0 < bits) (finite : bits < 2047 * 2 ^ 52) :
    Canonical (if bits / 2 ^ 52 = 0 then bits % 2 ^ 52 else 2 ^ 52 + bits % 2 ^ 52)
      ((max (bits / 2 ^ 52) 1 : Nat) - 1075) where
  positive := by split <;> omega
  small := by split <;> omega
  low := by omega
  high := by omega
  full := by split <;> omega

theorem unpack_of_bits {bits : BitVec 64} {mantissa : Nat} {exponent : Int} (some : 0 < bits.toNat)
    (finite : bits.toNat < 2047 * 2 ^ 52) (positive : 0 < mantissa)
    (isMantissa : mantissa =
      if bits.toNat / 2 ^ 52 = 0 then bits.toNat % 2 ^ 52 else 2 ^ 52 + bits.toNat % 2 ^ 52)
    (isExponent : exponent = (max (bits.toNat / 2 ^ 52) 1 : Nat) - 1075) :
    UnpackedFloat.unpack .binary64 bits = .finite .positive mantissa exponent positive := by
  have sign : @unpackSign .binary64 bits = 0#1 := by
    apply BitVec.eq_of_toNat_eq
    rw [toNat_unpackSign]
    change bits.toNat / 2 ^ 63 = 0
    omega
  have field : (@unpackExponent .binary64 bits).toNat = bits.toNat / 2 ^ 52 := by
    rw [toNat_unpackExponent]
    omega
  have fraction := toNat_unpackMantissa bits
  have bias : ((Format.binary64.exponentBias : Nat) : Int) = 1023 := rfl
  have positive' : Sign.ofBitVec 0#1 = .positive := rfl
  unfold UnpackedFloat.unpack
  simp only [sign, positive']
  rw [if_neg]
  · by_cases isSmallest : @unpackExponent .binary64 bits = 0#11
    · rw [if_pos isSmallest]
      rw [isSmallest] at field
      have field : 0 = bits.toNat / 2 ^ 52 := field
      rw [dif_neg]
      · congr 1
        · rw [fraction, isMantissa, if_pos field.symm]
        · rw [isSmallest, isExponent, ← field, bias]
          rfl
      · intro isZero
        rw [isZero] at fraction
        have fraction : 0 = bits.toNat % 2 ^ 52 := fraction
        omega
    · rw [if_neg isSmallest]
      have nonzero : bits.toNat / 2 ^ 52 ≠ 0 := by
        intro isZero
        apply isSmallest
        apply BitVec.eq_of_toNat_eq
        exact field.trans isZero
      congr 1
      · rw [BitVec.toNat_append, ← Nat.shiftLeft_add_eq_or_of_lt (BitVec.isLt _), fraction,
          isMantissa, if_neg nonzero]
        rfl
      · rw [field, isExponent, bias]
        omega
  · intro isLargest
    rw [isLargest] at field
    have field : 2047 = bits.toNat / 2 ^ 52 := field
    omega

/-- A positive number is unpacked to its mantissa and its exponent, which are kept as they
are. -/
theorem unpack_positive {number : Float} (positive : Positive number) :
    ∃ canonical : Canonical (Dyadic.ofFloat number).mantissa (Dyadic.ofFloat number).exponent,
      number.toModel.unpack = .finite .positive (Dyadic.ofFloat number).mantissa
        (Dyadic.ofFloat number).exponent canonical.positive := by
  have small : number.toBits.toNat / 2 ^ 52 % 2048 = number.toBits.toNat / 2 ^ 52 := by
    have finite := positive.2
    omega
  have isMantissa : (Dyadic.ofFloat number).mantissa = if number.toBits.toNat / 2 ^ 52 = 0 then
      number.toBits.toNat % 2 ^ 52 else 2 ^ 52 + number.toBits.toNat % 2 ^ 52 := by
    simp only [Dyadic.ofFloat, hiddenBit, Nat.shiftRight_eq_div_pow, small]
    rfl
  have isExponent : (Dyadic.ofFloat number).exponent =
      (max (number.toBits.toNat / 2 ^ 52) 1 : Nat) - 1075 := by
    simp only [Dyadic.ofFloat, Nat.shiftRight_eq_div_pow, small]
    rfl
  have canonical := canonical_of_bits positive.1 positive.2
  rw [← isMantissa, ← isExponent] at canonical
  exact ⟨canonical, unpack_of_bits positive.1 positive.2 canonical.positive isMantissa isExponent⟩

theorem readsBack {number : Float} (plain : Plain number) (finite : number.isInf = false) :
    ReadsBack number := by
  rcases Nat.eq_zero_or_pos number.toBits.toNat with isZero | some
  · have isZero : number = 0.0 := eq_of_toBits (BitVec.eq_of_toNat_eq isZero)
    rw [isZero]
    decide
  · have notLargest : number.toBits.toNat ≠ 2047 * 2 ^ 52 := by
      intro largest
      have isInfinity : number = infinity :=
        eq_of_toBits (BitVec.eq_of_toNat_eq (largest.trans (by decide)))
      rw [isInfinity] at finite
      exact absurd finite (by decide)
    rcases unpack_positive ⟨some, Nat.lt_of_le_of_ne plain notLargest⟩ with ⟨canonical, unpacked⟩
    unfold ReadsBack
    rw [Decimal.toFloat_eq canonical (shortest_attracts canonical _), ← unpacked]
    exact eq_of_toBits (pack_unpack_of_valid number.toModel.valid)

end ExprScript.Number
