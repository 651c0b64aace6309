import ExprScript.Number.Remainder
import ExprScript.Proofs.Number.Shortest

/-! # The rational number that a number denotes

A finite number denotes a whole number times a power of two. Whatever has a mantissa and an
exponent that are kept is packed and unpacked without a change, so that sums, differences
and remainders are exact where the result can be held. Comparisons and conversions to whole
numbers are those of the rational numbers.
-/

namespace ExprScript.Number

open Float.Model Float.Model.UnpackedFloat

@[simp] theorem apply_zero (sign : Sign) : sign.apply 0 = 0 := by
  cases sign <;> rfl

def signOf (negative : Bool) : Sign := if negative then .negative else .positive

@[simp] theorem signOf_true : signOf true = .negative := rfl

@[simp] theorem signOf_false : signOf false = .positive := rfl

namespace Dyadic

/-- The rational number itself. -/
def value (value : Dyadic) : ℚ :=
  (signOf value.negative).apply value.mantissa * 2 ^ value.exponent

end Dyadic

def unpackedValue : UnpackedFloat → ℚ
  | .finite sign mantissa exponent _ => sign.apply mantissa * 2 ^ exponent
  | .zero _ | .infinity _ | .notANumber => 0

/-- The rational number that a finite number denotes. -/
def value (number : Float) : ℚ := unpackedValue number.toModel.unpack

/-- The number is finite and denotes the rational number. -/
structure Exactly (number : Float) (rational : ℚ) : Prop where
  finite : number.isFinite = true
  denotes : value number = rational

theorem Exactly.self {number : Float} (finite : number.isFinite = true) :
    Exactly number (value number) := ⟨finite, rfl⟩

/-! ## Packing -/

section

variable {mantissa : Nat} {exponent : Int}

def keptBits (mantissa : Nat) (exponent : Int) : Nat :=
  (if mantissa < 2 ^ 52 then 0 else (exponent + 1075).toNat) * 2 ^ 52 + mantissa % 2 ^ 52

theorem Canonical.bits (canonical : Canonical mantissa exponent) :
    keptBits mantissa exponent < 2047 * 2 ^ 52 ∧
      UnpackedFloat.unpack .binary64 (BitVec.ofNat 64 (keptBits mantissa exponent)) =
        .finite .positive mantissa exponent canonical.positive := by
  rcases canonical with ⟨positive, small, low, high, full⟩
  have bounds : 0 < keptBits mantissa exponent ∧ keptBits mantissa exponent < 2047 * 2 ^ 52 := by
    unfold keptBits
    split <;> omega
  have held : (BitVec.ofNat 64 (keptBits mantissa exponent)).toNat =
      keptBits mantissa exponent := by
    rw [BitVec.toNat_ofNat]
    exact Nat.mod_eq_of_lt (by omega)
  refine ⟨bounds.2, unpack_of_bits ?_ ?_ positive ?_ ?_⟩
  · omega
  · omega
  · rw [held, keptBits]
    split <;> split <;> omega
  · rw [held, keptBits]
    split <;> omega

theorem eq_signed {bits bits' : BitVec 64} (same : bits'.toNat % 2 ^ 63 = bits.toNat % 2 ^ 63) :
    bits' = signed (Sign.ofBitVec (@unpackSign .binary64 bits')) bits := by
  have exponent : @unpackExponent .binary64 bits' = @unpackExponent .binary64 bits := by
    apply BitVec.eq_of_toNat_eq
    rw [toNat_unpackExponent, toNat_unpackExponent]
    omega
  have mantissa : @unpackMantissa .binary64 bits' = @unpackMantissa .binary64 bits := by
    apply BitVec.eq_of_toNat_eq
    rw [toNat_unpackMantissa, toNat_unpackMantissa]
    omega
  conv_lhs => rw [← signed_self bits', signed, exponent, mantissa]
  rfl

theorem Canonical.unpack_pack (canonical : Canonical mantissa exponent) (sign : Sign) :
    UnpackedFloat.unpack .binary64
        (UnpackedFloat.pack .binary64 (.finite sign mantissa exponent canonical.positive)) =
      .finite sign mantissa exponent canonical.positive := by
  rcases canonical.bits with ⟨-, unpacked⟩
  have finite := congrArg UnpackedFloat.isFinite unpacked
  have packed := pack_setSign finite sign
  have unpacked' := unpack_signed sign (BitVec.ofNat 64 (keptBits mantissa exponent))
  rw [unpacked] at packed unpacked'
  change pack .binary64 (.finite sign mantissa exponent canonical.positive) = _ at packed
  rw [packed]
  exact unpacked'

theorem exactly_of_unpack {number : Float} {sign : Sign} {positive : 0 < mantissa}
    (unpacked : number.toModel.unpack = .finite sign mantissa exponent positive) :
    Exactly number (sign.apply mantissa * 2 ^ exponent) := by
  constructor
  · exact congrArg UnpackedFloat.isFinite unpacked
  · exact congrArg unpackedValue unpacked

theorem Canonical.exactly (canonical : Canonical mantissa exponent) (sign : Sign) :
    Exactly (.ofModel (.pack (.finite sign mantissa exponent canonical.positive)))
      (sign.apply mantissa * 2 ^ exponent) :=
  exactly_of_unpack (canonical.unpack_pack sign)

theorem exactly_of_unpack_zero {number : Float} {sign : Sign}
    (unpacked : number.toModel.unpack = .zero sign) : Exactly number 0 := by
  constructor
  · exact congrArg UnpackedFloat.isFinite unpacked
  · exact congrArg unpackedValue unpacked

theorem exactly_zero (sign : Sign) : Exactly (.ofModel (.pack (.zero sign))) 0 := by
  cases sign with
  | negative => exact @exactly_of_unpack_zero _ .negative rfl
  | positive => exact @exactly_of_unpack_zero _ .positive rfl

end

/-! ## Unpacking -/

theorem unpack_sign (number : Float) :
    number.toModel.unpack = setSign (signOf (hasSign number)) number.toModel.unpack := by
  have sign := sign_of_hasSign number
  have same := unpack_signed (Sign.ofBitVec (@unpackSign .binary64 number.toBits.toBitVec))
    number.toBits.toBitVec
  rwa [signed_self, sign] at same

/-- A finite number is unpacked to its mantissa and its exponent. -/
theorem unpack_finite {number : Float} (finite : number.isFinite = true) :
    (number.toModel.unpack = .zero (signOf (hasSign number)) ∧
        (Dyadic.ofFloat number).mantissa = 0) ∨
      ∃ canonical : Canonical (Dyadic.ofFloat number).mantissa (Dyadic.ofFloat number).exponent,
        number.toModel.unpack = .finite (signOf (hasSign number)) (Dyadic.ofFloat number).mantissa
          (Dyadic.ofFloat number).exponent canonical.positive := by
  have sign := unpack_sign number
  have magnitude := unpack_abs finite
  rcases ofFloat_abs finite with ⟨sameMantissa, sameExponent⟩
  have plain := plain_abs finite
  have opposite : number.toModel.unpack =
      setSign (signOf (hasSign number)) number.abs.toModel.unpack := by
    rw [magnitude]
    conv_lhs => rw [sign]
    cases number.toModel.unpack <;> rfl
  rcases unpack_of_toNat plain with
    ⟨-, isInfinite⟩ | ⟨isZero, unpacked⟩ | ⟨mantissa, exponent, positive, unpacked⟩
  · have finite' := isFinite_abs finite
    change number.abs.toModel.unpack.isFinite = true at finite'
    rw [show number.abs.toModel.unpack = _ from isInfinite] at finite'
    cases finite'
  · left
    constructor
    · rw [opposite, show number.abs.toModel.unpack = _ from unpacked]
      rfl
    · have isZero : number.abs = 0.0 := eq_of_toBits (BitVec.eq_of_toNat_eq isZero)
      rw [← sameMantissa, isZero]
      decide
  · right
    have isPositive : Positive number.abs := by
      constructor
      · apply Nat.pos_of_ne_zero
        intro isZero
        have isZero : number.abs = 0.0 := eq_of_toBits (BitVec.eq_of_toNat_eq isZero)
        rw [isZero] at unpacked
        cases unpacked
      · apply Nat.lt_of_le_of_ne plain
        intro isLargest
        have isInfinite : number.abs = infinity :=
          eq_of_toBits (BitVec.eq_of_toNat_eq (isLargest.trans (by decide)))
        rw [isInfinite] at unpacked
        cases unpacked
    rcases unpack_positive isPositive with ⟨canonical, unpacked⟩
    simp only [sameMantissa, sameExponent] at canonical unpacked
    refine ⟨canonical, ?_⟩
    rw [opposite, unpacked]
    rfl

theorem exactly_ofFloat {number : Float} (finite : number.isFinite = true) :
    Exactly number (Dyadic.ofFloat number).value := by
  rcases unpack_finite finite with ⟨unpacked, isZero⟩ | ⟨canonical, unpacked⟩
  · have denotesZero : (Dyadic.ofFloat number).value = 0 := by
      rw [Dyadic.value, isZero]
      simp
    rw [denotesZero]
    exact exactly_of_unpack_zero unpacked
  · exact exactly_of_unpack unpacked

/-! ## Values that can be held -/

/-- The bits that are kept, with a sign in front of them, are the bits of the number. -/
theorem Canonical.exactly_ofBits {mantissa : Nat} {exponent : Int}
    (canonical : Canonical mantissa exponent) (negative : Bool) :
    Exactly (Float.ofBits (UInt64.ofNat
        ((if negative then 2 ^ 63 else 0) + keptBits mantissa exponent)))
      ((signOf negative).apply mantissa * 2 ^ exponent) := by
  rcases canonical.bits with ⟨bound, unpacked⟩
  generalize isBits : BitVec.ofNat 64
    ((if negative then 2 ^ 63 else 0) + keptBits mantissa exponent) = bits
  have amount : bits.toNat = (if negative then 2 ^ 63 else 0) + keptBits mantissa exponent := by
    rw [← isBits, BitVec.toNat_ofNat]
    apply Nat.mod_eq_of_lt
    split <;> omega
  have low : (BitVec.ofNat 64 (keptBits mantissa exponent)).toNat = keptBits mantissa exponent := by
    rw [BitVec.toNat_ofNat]
    exact Nat.mod_eq_of_lt (by omega)
  have sign : Sign.ofBitVec (@unpackSign .binary64 bits) = signOf negative := by
    have value := toNat_unpackSign bits
    rw [amount] at value
    rw [Sign.ofBitVec]
    cases negative with
    | false =>
        apply if_pos
        apply BitVec.eq_of_toNat_eq
        rw [value]
        simp only [Bool.false_eq_true, if_false, BitVec.toNat_ofNat]
        omega
    | true =>
        apply if_neg
        intro clear
        rw [clear] at value
        simp only [if_true, BitVec.toNat_ofNat] at value
        omega
  have same : bits = signed (signOf negative) (BitVec.ofNat 64 (keptBits mantissa exponent)) := by
    rw [← sign]
    apply eq_signed
    rw [amount, low]
    split <;> omega
  have unpacked' : UnpackedFloat.unpack .binary64 bits =
      .finite (signOf negative) mantissa exponent canonical.positive := by
    rw [same, unpack_signed, unpacked]
    rfl
  refine @exactly_of_unpack _ _ _ _ canonical.positive ?_
  change UnpackedFloat.unpack .binary64 (UnpackedFloat.pack .binary64
    (UnpackedFloat.unpack .binary64 (BitVec.ofNat 64 _))) = _
  rw [isBits, unpacked']
  exact canonical.unpack_pack _

theorem canonical_shiftLeft {mantissa : Nat} {exponent : Int} (positive : 0 < mantissa)
    (small : mantissa < 2 ^ 53) (low : -1074 ≤ exponent) (high : exponent ≤ 971) :
    ∃ count : Nat, max (-1074) (exponent + Int.ofNat (mantissa.log2 + 1) - 53) = exponent - count ∧
      Canonical (mantissa * 2 ^ count) (exponent - count) := by
  have length : mantissa.log2 ≤ 52 := by
    have := (Nat.log2_lt positive.ne').mpr small
    omega
  rcases Int.le.dest (a := max (-1074) (exponent + Int.ofNat (mantissa.log2 + 1) - 53))
    (b := exponent) (by rw [Int.ofNat_eq_natCast]; omega) with ⟨count, sum⟩
  rw [Int.ofNat_eq_natCast] at sum ⊢
  have fits : count + mantissa.log2 ≤ 52 := by omega
  refine ⟨count, by omega, Nat.mul_pos positive (Nat.two_pow_pos _), ?_, by omega, by omega, ?_⟩
  · calc mantissa * 2 ^ count < 2 ^ (mantissa.log2 + 1) * 2 ^ count :=
          Nat.mul_lt_mul_of_pos_right Nat.lt_log2_self (Nat.two_pow_pos _)
      _ = 2 ^ (mantissa.log2 + 1 + count) := (Nat.pow_add ..).symm
      _ ≤ 2 ^ 53 := Nat.pow_le_pow_right two_pos (by omega)
  · rcases Int.lt_or_le (-1074) (exponent - count) with above | bottom
    · right
      calc 2 ^ 52 ≤ 2 ^ (mantissa.log2 + count) := Nat.pow_le_pow_right two_pos (by omega)
        _ = 2 ^ mantissa.log2 * 2 ^ count := Nat.pow_add ..
        _ ≤ mantissa * 2 ^ count := Nat.mul_le_mul_right _ (Nat.log2_self_le positive.ne')
    · left
      omega

theorem ofBits_zero (negative : Bool) :
    Float.ofBits (UInt64.ofNat (if negative then 1 <<< 63 else 0)) =
      .ofModel (.pack (.zero (signOf negative))) := by
  cases negative <;> decide

theorem Dyadic.exactly_toFloat {value : Dyadic} (small : value.mantissa < 2 ^ 53)
    (low : -1074 ≤ value.exponent) (high : value.exponent ≤ 971) :
    Exactly value.toFloat value.value := by
  rcases value with ⟨negative, mantissa, exponent⟩
  dsimp only at small low high
  rcases Nat.eq_zero_or_pos mantissa with rfl | positive
  · have isZero : Dyadic.value ⟨negative, 0, exponent⟩ = 0 := by simp [Dyadic.value]
    rw [isZero]
    have bits : Dyadic.toFloat ⟨negative, 0, exponent⟩ =
        .ofModel (.pack (.zero (signOf negative))) := by
      unfold Dyadic.toFloat
      rw [if_pos rfl]
      exact ofBits_zero negative
    rw [bits]
    exact exactly_zero _
  · rcases canonical_shiftLeft positive small low high with ⟨count, isExponent, canonical⟩
    have within : exponent - (count : Int) ≤ exponent := by omega
    have amount : (exponent - (exponent - (count : Int))).toNat = count := by omega
    have bit : hiddenBit = 2 ^ 52 := rfl
    have top : 1 <<< 63 = 2 ^ 63 := Nat.one_shiftLeft 63
    have bits : Dyadic.toFloat ⟨negative, mantissa, exponent⟩ = Float.ofBits (UInt64.ofNat
        ((if negative then 2 ^ 63 else 0) +
          keptBits (mantissa * 2 ^ count) (exponent - count))) := by
      unfold Dyadic.toFloat keptBits
      simp only [positive.ne', if_false, isExponent, within, if_true, amount, bit, top,
        Nat.shiftLeft_eq mantissa, Nat.add_assoc]
    have same : (Dyadic.value ⟨negative, mantissa, exponent⟩ : ℚ) =
        (signOf negative).apply (mantissa * 2 ^ count : Nat) * 2 ^ (exponent - count) := by
      have scale : (2 : ℚ) ^ exponent = 2 ^ count * 2 ^ (exponent - count) := by
        rw [← zpow_natCast, ← two_zpow_add, add_sub_cancel]
      simp only [Dyadic.value, scale]
      cases negative <;> simp [signOf, Sign.apply] <;> ring
    rw [bits, same]
    exact canonical.exactly_ofBits negative

/-! ## Comparisons -/

section

variable {mantissa mantissa' : Nat} {exponent exponent' : Int}

theorem Canonical.lt_of_exponent_lt (canonical : Canonical mantissa exponent)
    (canonical' : Canonical mantissa' exponent') (less : exponent < exponent') :
    (mantissa * 2 ^ exponent : ℚ) < mantissa' * 2 ^ exponent' := by
  have bottom := canonical.low
  have full : 2 ^ 52 ≤ mantissa' := canonical'.full.resolve_left (by omega)
  have full : (2 : ℚ) ^ (52 : Int) ≤ mantissa' := by exact_mod_cast full
  have small : (mantissa : ℚ) < 2 ^ (53 : Int) := by exact_mod_cast canonical.small
  calc (mantissa * 2 ^ exponent : ℚ) < 2 ^ (53 : Int) * 2 ^ exponent :=
        mul_lt_mul_of_pos_right small (two_zpow_pos _)
    _ = 2 ^ (53 + exponent) := (two_zpow_add ..).symm
    _ ≤ 2 ^ (52 + exponent') := zpow_le_zpow_right₀ one_le_two (by omega)
    _ = 2 ^ (52 : Int) * 2 ^ exponent' := two_zpow_add ..
    _ ≤ mantissa' * 2 ^ exponent' := mul_le_mul_of_nonneg_right full (two_zpow_pos _).le

theorem Canonical.compare_eq (canonical : Canonical mantissa exponent)
    (canonical' : Canonical mantissa' exponent') :
    (compare exponent exponent').then (compare mantissa mantissa') =
      compare (mantissa * 2 ^ exponent : ℚ) (mantissa' * 2 ^ exponent') := by
  rcases lt_trichotomy exponent exponent' with less | rfl | greater
  · rw [compare_lt_iff_lt.mpr less,
      compare_lt_iff_lt.mpr (canonical.lt_of_exponent_lt canonical' less)]
    rfl
  · rw [compare_eq_iff_eq.mpr rfl, Ordering.eq_then]
    have scale := two_zpow_pos exponent
    rcases lt_trichotomy mantissa mantissa' with less | rfl | greater
    · rw [compare_lt_iff_lt.mpr less, compare_lt_iff_lt.mpr]
      exact mul_lt_mul_of_pos_right (Nat.cast_lt.mpr less) scale
    · rw [compare_eq_iff_eq.mpr rfl, compare_eq_iff_eq.mpr rfl]
    · rw [compare_gt_iff_gt.mpr greater, compare_gt_iff_gt.mpr]
      exact mul_lt_mul_of_pos_right (Nat.cast_lt.mpr greater) scale
  · rw [compare_gt_iff_gt.mpr greater,
      compare_gt_iff_gt.mpr (canonical'.lt_of_exponent_lt canonical greater)]
    rfl

theorem Canonical.magnitude_pos (canonical : Canonical mantissa exponent) :
    (0 : ℚ) < mantissa * 2 ^ exponent :=
  mul_pos (Nat.cast_pos.mpr canonical.positive) (two_zpow_pos _)

end

theorem unpackedValue_positive {mantissa : Nat} {exponent : Int} (positive : 0 < mantissa) :
    unpackedValue (.finite .positive mantissa exponent positive) = mantissa * 2 ^ exponent := rfl

theorem unpackedValue_negative {mantissa : Nat} {exponent : Int} (positive : 0 < mantissa) :
    unpackedValue (.finite .negative mantissa exponent positive) = -(mantissa * 2 ^ exponent) := by
  simp [unpackedValue, Sign.apply]

theorem compare_neg_neg (first second : ℚ) :
    compare (-first) (-second) = (compare first second).swap := by
  rcases lt_trichotomy first second with less | rfl | greater
  · rw [compare_lt_iff_lt.mpr less, compare_gt_iff_gt.mpr (neg_lt_neg less)]
    rfl
  · rw [compare_eq_iff_eq.mpr rfl, compare_eq_iff_eq.mpr rfl]
    rfl
  · rw [compare_gt_iff_gt.mpr greater, compare_lt_iff_lt.mpr (neg_lt_neg greater)]
    rfl

theorem unpackedValue_zero (sign : Sign) : unpackedValue (.zero sign) = 0 := rfl

theorem compare_unpack {first second : Float} (finite : first.isFinite = true)
    (finite' : second.isFinite = true) :
    first.toModel.unpack.compare second.toModel.unpack =
      some (compare (value first) (value second)) := by
  unfold value
  rcases unpack_finite finite with ⟨unpacked, -⟩ | ⟨canonical, unpacked⟩
  · rcases unpack_finite finite' with ⟨unpacked', -⟩ | ⟨canonical', unpacked'⟩
    · rw [unpacked, unpacked', unpackedValue_zero, unpackedValue_zero, compare_eq_iff_eq.mpr rfl]
      rfl
    · rw [unpacked, unpacked', unpackedValue_zero]
      have positive := canonical'.magnitude_pos
      cases hasSign second with
      | false =>
          rw [signOf_false, unpackedValue_positive, compare_lt_iff_lt.mpr positive]
          rfl
      | true =>
          rw [signOf_true, unpackedValue_negative,
            compare_gt_iff_gt.mpr (neg_neg_of_pos positive)]
          rfl
  · have positive := canonical.magnitude_pos
    rcases unpack_finite finite' with ⟨unpacked', -⟩ | ⟨canonical', unpacked'⟩
    · rw [unpacked, unpacked', unpackedValue_zero]
      cases hasSign first with
      | false =>
          rw [signOf_false, unpackedValue_positive, compare_gt_iff_gt.mpr positive]
          rfl
      | true =>
          rw [signOf_true, unpackedValue_negative,
            compare_lt_iff_lt.mpr (neg_neg_of_pos positive)]
          rfl
    · have positive' := canonical'.magnitude_pos
      rw [unpacked, unpacked']
      cases hasSign first with
      | false =>
          rw [signOf_false, unpackedValue_positive]
          cases hasSign second with
          | false =>
              rw [signOf_false, unpackedValue_positive, ← canonical.compare_eq canonical']
              rfl
          | true =>
              rw [signOf_true, unpackedValue_negative,
                compare_gt_iff_gt.mpr ((neg_neg_of_pos positive').trans positive)]
              rfl
      | true =>
          rw [signOf_true, unpackedValue_negative]
          cases hasSign second with
          | false =>
              rw [signOf_false, unpackedValue_positive,
                compare_lt_iff_lt.mpr ((neg_neg_of_pos positive).trans positive')]
              rfl
          | true =>
              rw [signOf_true, unpackedValue_negative, compare_neg_neg,
                ← canonical.compare_eq canonical']
              rfl

theorem lt_iff_value {first second : Float} (finite : first.isFinite = true)
    (finite' : second.isFinite = true) : first < second ↔ value first < value second := by
  have isCompared : first < second ↔
      (first.toModel.unpack.compare second.toModel.unpack == some .lt) = true :=
    decide_eq_true_iff
  rw [isCompared, compare_unpack finite finite', ← compare_lt_iff_lt]
  simp

theorem le_iff_value {first second : Float} (finite : first.isFinite = true)
    (finite' : second.isFinite = true) : first ≤ second ↔ value first ≤ value second := by
  have isCompared : first ≤ second ↔
      (first.toModel.unpack.compare second.toModel.unpack).any (·.isLE) = true :=
    decide_eq_true_iff
  rw [isCompared, compare_unpack finite finite', ← compare_le_iff_le]
  simp [Ordering.isLE_iff_ne_gt]

theorem beq_iff_value {first second : Float} (finite : first.isFinite = true)
    (finite' : second.isFinite = true) : (first == second) = true ↔ value first = value second := by
  change (first.toModel.unpack.compare second.toModel.unpack == some .eq) = true ↔ _
  rw [compare_unpack finite finite', ← compare_eq_iff_eq]
  simp

theorem exactly_zero_literal : Exactly 0.0 0 := @exactly_of_unpack_zero _ .positive rfl

theorem value_zero : value 0.0 = 0 := exactly_zero_literal.denotes

/-! ## Sums and differences -/

/-- The rational number is zero, or its magnitude has a mantissa and an exponent that are
kept. -/
def Kept (rational : ℚ) : Prop :=
  rational = 0 ∨ ∃ negative mantissa exponent, Canonical mantissa exponent ∧
    rational = (signOf negative).apply mantissa * 2 ^ exponent

theorem canonical_of_lt {number : Nat} (positive : 0 < number) (small : number < 2 ^ 53) :
    ∃ mantissa exponent, Canonical mantissa exponent ∧ (mantissa * 2 ^ exponent : ℚ) = number := by
  rcases canonical_shiftLeft positive small (by decide : -1074 ≤ (0 : Int)) (by decide) with
    ⟨count, -, canonical⟩
  refine ⟨_, _, canonical, ?_⟩
  rw [zero_sub, zpow_neg, zpow_natCast]
  push_cast
  exact mul_inv_cancel_right₀ (by positivity) _

theorem kept_int {integer : Int} (small : integer.natAbs < 2 ^ 53) : Kept integer := by
  rcases Nat.eq_zero_or_pos integer.natAbs with isZero | positive
  · left
    rw [Int.natAbs_eq_zero.mp isZero, Int.cast_zero]
  · rcases canonical_of_lt positive small with ⟨mantissa, exponent, canonical, magnitude⟩
    refine .inr ⟨decide (integer < 0), _, _, canonical, ?_⟩
    rcases Int.lt_or_le integer 0 with below | above
    · rw [decide_eq_true below]
      have opposite : (integer : ℚ) = -(integer.natAbs : ℚ) := by
        exact_mod_cast (by omega : integer = -(integer.natAbs : Int))
      rw [opposite, ← magnitude]
      simp [Sign.apply]
    · rw [decide_eq_false (by omega)]
      have same : (integer : ℚ) = (integer.natAbs : ℚ) := by
        rw [← Int.cast_natCast, Int.natAbs_of_nonneg above]
      rw [same, ← magnitude]
      simp [Sign.apply]

section

variable {mantissa start : Nat} {exponent level : Int}

theorem attracts_self (mantissa : Nat) (exponent : Int) :
    Attracts mantissa exponent (mantissa * 2 ^ exponent) := by
  have scale := two_zpow_pos exponent
  have gap := gapBelow_bounds mantissa exponent
  have lower : (mantissa - gapBelow mantissa exponent) * 2 ^ exponent < mantissa * 2 ^ exponent :=
    mul_lt_mul_of_pos_right (by linarith) scale
  have upper : (mantissa * 2 ^ exponent : ℚ) < (mantissa + 1 / 2) * 2 ^ exponent :=
    mul_lt_mul_of_pos_right (by linarith) scale
  exact ⟨lower.le, upper.le, fun _ => lower, fun _ => upper⟩

theorem roundWithAccuracy_sign (spec : Format) (sign : Sign) (mantissa : Nat) (exponent : Int)
    (accuracy : Accuracy) : roundWithAccuracy spec sign mantissa exponent accuracy =
      setSign sign (roundWithAccuracy spec .positive mantissa exponent accuracy) := by
  unfold roundWithAccuracy
  dsimp only
  split <;> rfl

theorem Canonical.round_eq (canonical : Canonical mantissa exponent) (sign : Sign)
    (same : (start * 2 ^ level : ℚ) = mantissa * 2 ^ exponent) :
    UnpackedFloat.round .binary64 sign start level =
      .finite sign mantissa exponent canonical.positive := by
  have positive : 0 < start := by
    apply Nat.pos_of_ne_zero
    rintro rfl
    have magnitude := canonical.magnitude_pos
    rw [← same] at magnitude
    simp at magnitude
  unfold UnpackedFloat.round decreaseExponent
  dsimp only
  generalize amount : (level - Format.binary64.targetExponent (totalExponent start level)).toNat =
    count
  have total : totalExponent (start * 2 ^ count) (level - count) = totalExponent start level := by
    simp only [totalExponent, log2_mul_pow start count positive]
    omega
  have value : ((start * 2 ^ count : Nat) : ℚ) = mantissa * 2 ^ exponent / 2 ^ (level - count) := by
    rw [eq_div_iff (two_zpow_pos _).ne', ← same, zpow_sub₀ two_ne_zero, zpow_natCast]
    push_cast
    field_simp
  rw [Nat.shiftLeft_eq, roundWithAccuracy_sign, roundWithAccuracy_eq canonical
    (attracts_self mantissa exponent)]
  · rfl
  · intro isZero
    exact absurd isZero (Nat.mul_pos positive (Nat.two_pow_pos _)).ne'
  · rw [← value]
    exact .exact _
  · rw [total]
    omega

end

theorem normalize_exactly {mantissa exponent : Int} (kept : Kept (mantissa * 2 ^ exponent))
    (zeroSign : Sign) : Exactly
      (.ofModel (.pack (UnpackedFloat.normalize .binary64 mantissa exponent zeroSign)))
      (mantissa * 2 ^ exponent) := by
  have scale := two_zpow_pos exponent
  unfold UnpackedFloat.normalize
  rcases lt_trichotomy mantissa 0 with below | rfl | above
  · have negative : (mantissa * 2 ^ exponent : ℚ) < 0 :=
      mul_neg_of_neg_of_pos (by exact_mod_cast below) scale
    rw [compare_lt_iff_lt.mpr below]
    rcases kept with isZero | ⟨sign, start, level, canonical, same⟩
    · exact absurd isZero negative.ne
    · have magnitude := canonical.magnitude_pos
      rcases sign with _ | _
      · rw [same] at negative
        exact absurd negative magnitude.not_gt
      · have same' : ((-mantissa).toNat * 2 ^ exponent : ℚ) = start * 2 ^ level := by
          rw [← Int.cast_natCast (-mantissa).toNat, Int.toNat_of_nonneg (by omega)]
          simp only [signOf_true, Sign.apply] at same
          push_cast at same ⊢
          linarith
        dsimp only
        rw [canonical.round_eq .negative same', same]
        exact canonical.exactly .negative
  · rw [compare_eq_iff_eq.mpr rfl, Int.cast_zero, zero_mul]
    exact exactly_zero _
  · have positive : (0 : ℚ) < mantissa * 2 ^ exponent :=
      mul_pos (by exact_mod_cast above) scale
    rw [compare_gt_iff_gt.mpr above]
    rcases kept with isZero | ⟨sign, start, level, canonical, same⟩
    · exact absurd isZero positive.ne'
    · have magnitude := canonical.magnitude_pos
      rcases sign with _ | _
      · have same' : (mantissa.toNat * 2 ^ exponent : ℚ) = start * 2 ^ level := by
          rw [← Int.cast_natCast mantissa.toNat, Int.toNat_of_nonneg (by omega), same]
          rfl
        dsimp only
        rw [canonical.round_eq .positive same', same]
        exact canonical.exactly .positive
      · simp only [same, signOf_true, Sign.apply] at positive
        push_cast at positive
        linarith

theorem apply_decreaseExponent (sign : Sign) (mantissa : Nat) {exponent target : Int}
    (within : target ≤ exponent) :
    (sign.apply (decreaseExponent mantissa exponent target).1 * 2 ^ target : ℚ) =
      sign.apply mantissa * 2 ^ exponent := by
  rcases Int.le.dest within with ⟨count, rfl⟩
  have amount : (target + count - target).toNat = count := by omega
  simp only [decreaseExponent, amount, Nat.shiftLeft_eq, two_zpow_add, zpow_natCast]
  cases sign <;> simp only [Sign.apply] <;> push_cast <;> ring

variable {first second : Float} {left right : ℚ}

theorem unpack_neg (finite : first.isFinite = true) :
    (-first).toModel.unpack = first.toModel.unpack.neg := by
  change UnpackedFloat.unpack .binary64 (UnpackedFloat.pack .binary64 first.toModel.unpack.neg) = _
  rcases unpack_finite finite with ⟨unpacked, -⟩ | ⟨canonical, unpacked⟩
  · rw [unpacked]
    cases hasSign first <;> rfl
  · rw [unpacked]
    exact canonical.unpack_pack _

theorem Exactly.neg (exactly : Exactly first left) : Exactly (-first) (-left) := by
  have finite := exactly.finite
  refine ⟨isFinite_neg finite, ?_⟩
  rw [← exactly.denotes, value, value, unpack_neg finite]
  cases first.toModel.unpack with
  | infinity | notANumber | zero => exact neg_zero.symm
  | finite sign mantissa exponent positive =>
      cases sign with
      | negative =>
          rw [unpackedValue_negative, neg_neg]
          rfl
      | positive =>
          rw [unpackedValue_positive]
          exact unpackedValue_negative positive

theorem Exactly.add (exactly : Exactly first left) (exactly' : Exactly second right)
    (kept : Kept (left + right)) : Exactly (first + second) (left + right) := by
  rcases exactly with ⟨finite, rfl⟩
  rcases exactly' with ⟨finite', rfl⟩
  change Exactly (.ofModel (.pack
    (UnpackedFloat.add .binary64 first.toModel.unpack second.toModel.unpack))) _
  unfold value at kept ⊢
  rcases unpack_finite finite with ⟨unpacked, -⟩ | ⟨canonical, unpacked⟩
  · rcases unpack_finite finite' with ⟨unpacked', -⟩ | ⟨canonical', unpacked'⟩
    · rw [unpacked, unpacked']
      have isZero : (unpackedValue (.zero (signOf (hasSign first))) +
          unpackedValue (.zero (signOf (hasSign second))) : ℚ) = 0 := add_zero 0
      rw [isZero, UnpackedFloat.add]
      split
      · exact exactly_zero _
      · exact exactly_zero _
    · rw [unpacked, unpacked']
      have single := canonical'.exactly (signOf (hasSign second))
      rw [← zero_add (_ * _)] at single
      exact single
  · rcases unpack_finite finite' with ⟨unpacked', -⟩ | ⟨canonical', unpacked'⟩
    · rw [unpacked, unpacked']
      have single := canonical.exactly (signOf (hasSign first))
      rw [← add_zero (_ * _)] at single
      exact single
    · rw [unpacked, unpacked'] at kept ⊢
      simp only [unpackedValue] at kept ⊢
      rw [← apply_decreaseExponent _ _ (min_le_left _ (Dyadic.ofFloat second).exponent),
        ← apply_decreaseExponent _ (Dyadic.ofFloat second).mantissa
          (min_le_right (Dyadic.ofFloat first).exponent _), ← add_mul, ← Int.cast_add] at kept ⊢
      exact normalize_exactly kept _

theorem apply_neg (sign : Sign) (integer : Int) : (-sign).apply integer = -sign.apply integer := by
  cases sign with
  | negative => exact (neg_neg integer).symm
  | positive => rfl

theorem sub_eq_add_opposite (finite : second.isFinite = true) :
    first - second = first + -second := by
  change Float.ofModel (.pack
      (UnpackedFloat.sub .binary64 first.toModel.unpack second.toModel.unpack)) =
    .ofModel (.pack (UnpackedFloat.add .binary64 first.toModel.unpack (-second).toModel.unpack))
  rw [unpack_neg finite]
  cases first.toModel.unpack with
  | finite => cases second.toModel.unpack with
    | finite => simp only [UnpackedFloat.sub, UnpackedFloat.add, UnpackedFloat.neg, apply_neg,
        Int.sub_eq_add_neg]
    | notANumber | infinity | zero => rfl
  | notANumber | infinity | zero => cases second.toModel.unpack <;> rfl

theorem Exactly.sub (exactly : Exactly first left) (exactly' : Exactly second right)
    (kept : Kept (left - right)) : Exactly (first - second) (left - right) := by
  rw [sub_eq_add_opposite exactly'.finite, sub_eq_add_neg]
  rw [sub_eq_add_neg] at kept
  exact exactly.add exactly'.neg kept

end ExprScript.Number
