import ExprScript.Number.Reading
import ExprScript.Tree.Precedence
import Mathlib

/-! # Numbers that a literal denotes

A literal has no sign, so its number is a zero, a positive number or infinity.
The bits of these numbers are the ones up to the bits of infinity.
-/

namespace ExprScript.Number

open Float.Model

def Plain (number : Float) : Prop := number.toBits.toNat ≤ 2047 * 2 ^ 52

instance (number : Float) : Decidable (Plain number) := inferInstanceAs (Decidable (_ ≤ _))

inductive PlainUnpacked : UnpackedFloat → Prop
  | infinity : PlainUnpacked (.infinity .positive)
  | zero : PlainUnpacked (.zero .positive)
  | finite (mantissa : Nat) (exponent : Int) (positive : 0 < mantissa) :
      PlainUnpacked (.finite .positive mantissa exponent positive)

theorem toNat_packComponents (exponent : BitVec 11) (mantissa : BitVec 52) :
    (UnpackedFloat.packComponents Format.binary64 .positive exponent mantissa).toNat =
      exponent.toNat * 2 ^ 52 + mantissa.toNat := by
  have bound := mantissa.isLt
  simp only [UnpackedFloat.packComponents, UnpackedFloat.Sign.toBitVec, BitVec.toNat_append]
  rw [← Nat.shiftLeft_add_eq_or_of_lt bound]
  simp [Nat.shiftLeft_eq]

theorem toNat_pack_of_plain {number : UnpackedFloat} (plain : PlainUnpacked number) :
    (UnpackedFloat.pack Format.binary64 number).toNat ≤ 2047 * 2 ^ 52 := by
  have largest : ∀ (exponent : BitVec 11) (mantissa : BitVec 52), exponent.toNat ≤ 2046 →
      (UnpackedFloat.packComponents Format.binary64 .positive exponent mantissa).toNat ≤
        2047 * 2 ^ 52 := by
    intro exponent mantissa bound
    have small := mantissa.isLt
    rw [toNat_packComponents]
    omega
  cases plain with
  | infinity => decide
  | zero => decide
  | finite mantissa exponent positive =>
      unfold UnpackedFloat.pack
      dsimp only
      split
      · decide
      · next small =>
          split
          · refine largest _ _ ?_
            change ¬ 2048 ≤ _ + 1 at small
            rw [BitVec.toNat_ofNat]
            exact Nat.le_trans (Nat.mod_le _ _) (by omega)
          · exact largest _ _ (by decide)

/-- The bits tell infinity, zero and the other plain numbers apart. -/
theorem unpack_of_toNat {bits : BitVec 64} (bound : bits.toNat ≤ 2047 * 2 ^ 52) :
    (bits.toNat = 2047 * 2 ^ 52 ∧
        UnpackedFloat.unpack Format.binary64 bits = .infinity .positive) ∨
      (bits.toNat = 0 ∧ UnpackedFloat.unpack Format.binary64 bits = .zero .positive) ∨
      ∃ mantissa exponent positive, UnpackedFloat.unpack Format.binary64 bits =
        .finite .positive mantissa exponent positive := by
  have sign : @UnpackedFloat.unpackSign Format.binary64 bits = 0#1 := by
    apply BitVec.eq_of_toNat_eq
    simp only [UnpackedFloat.unpackSign, BitVec.toNat_cast, BitVec.extractLsb_toNat]
    change bits.toNat >>> 63 % 2 = 0
    rw [Nat.shiftRight_eq_div_pow]
    omega
  have exponent : (@UnpackedFloat.unpackExponent Format.binary64 bits).toNat =
      bits.toNat / 2 ^ 52 := by
    simp only [UnpackedFloat.unpackExponent, BitVec.toNat_cast, BitVec.extractLsb_toNat]
    change bits.toNat >>> 52 % 2 ^ 11 = _
    rw [Nat.shiftRight_eq_div_pow]
    omega
  have mantissa : (@UnpackedFloat.unpackMantissa Format.binary64 bits).toNat =
      bits.toNat % 2 ^ 52 := by
    simp only [UnpackedFloat.unpackMantissa, BitVec.toNat_cast, BitVec.extractLsb_toNat]
    change bits.toNat >>> 0 % 2 ^ 52 = _
    rw [Nat.shiftRight_zero]
  have positive : UnpackedFloat.Sign.ofBitVec 0#1 = .positive := rfl
  unfold UnpackedFloat.unpack
  dsimp only
  rw [sign, positive]
  split
  · next isLargest =>
      -- Only infinity has the largest exponent: with a mantissa the bits would be too large.
      have field : bits.toNat / 2 ^ 52 = 2047 := by
        rw [← exponent, isLargest]
        rfl
      refine .inl ⟨by omega, if_pos ?_⟩
      apply BitVec.eq_of_toNat_eq
      rw [mantissa]
      change _ = 0
      omega
  · split
    · next isSmallest =>
        have field : bits.toNat / 2 ^ 52 = 0 := by
          rw [← exponent, isSmallest]
          rfl
        split
        · next isZero =>
            have rest : bits.toNat % 2 ^ 52 = 0 := by
              rw [← mantissa, isZero]
              rfl
            exact .inr (.inl ⟨by omega, rfl⟩)
        · next notZero =>
            refine .inr (.inr ⟨_, _, Nat.pos_of_ne_zero fun isZero => notZero ?_, rfl⟩)
            exact BitVec.eq_of_toNat_eq isZero
    · have leading : ∀ fraction : BitVec 52, 0 < (1#1 ++ fraction).toNat := by
        intro fraction
        rw [BitVec.toNat_append, ← Nat.shiftLeft_add_eq_or_of_lt fraction.isLt]
        exact Nat.lt_of_lt_of_le (by decide) (Nat.le_add_right _ _)
      exact .inr (.inr ⟨_, _, leading _, rfl⟩)

theorem plain_ofModel_pack {number : UnpackedFloat} (plain : PlainUnpacked number) :
    Plain (.ofModel (.pack number)) :=
  toNat_pack_of_plain plain

theorem Plain.unpacked {number : Float} (plain : Plain number) :
    PlainUnpacked number.toModel.unpack := by
  have cases := unpack_of_toNat plain
  unfold Float.Model.unpack
  obtain ⟨-, equal⟩ | ⟨-, equal⟩ | ⟨mantissa, exponent, positive, equal⟩ := cases
  · exact equal ▸ .infinity
  · exact equal ▸ .zero
  · exact equal ▸ .finite mantissa exponent positive

/-! ## Arithmetic -/

theorem plain_roundWithAccuracy (spec : Format) (mantissa : Nat) (exponent : Int)
    (accuracy : UnpackedFloat.Accuracy) :
    PlainUnpacked (UnpackedFloat.roundWithAccuracy spec .positive mantissa exponent accuracy) := by
  unfold UnpackedFloat.roundWithAccuracy
  dsimp only
  split
  · exact .zero
  · exact .finite _ _ _

theorem plain_normalize (spec : Format) {mantissa : Int} (positive : 0 ≤ mantissa)
    (exponent : Int) : PlainUnpacked (UnpackedFloat.normalize spec mantissa exponent .positive) := by
  unfold UnpackedFloat.normalize
  split
  · next isNegative =>
      rw [Int.compare_eq_lt] at isNegative
      omega
  · exact .zero
  · exact plain_roundWithAccuracy _ _ _ _

namespace PlainUnpacked

variable {left right : UnpackedFloat}

theorem mul (plain : PlainUnpacked left) (spec : Format) {mantissa : Nat} {exponent : Int}
    (positive : 0 < mantissa) :
    PlainUnpacked (UnpackedFloat.mul spec left (.finite .positive mantissa exponent positive)) := by
  cases plain with
  | infinity => exact .infinity
  | zero => exact .zero
  | finite => exact plain_roundWithAccuracy _ _ _ _

theorem div (plain : PlainUnpacked left) (spec : Format) {mantissa : Nat} {exponent : Int}
    (positive : 0 < mantissa) :
    PlainUnpacked (UnpackedFloat.div spec left (.finite .positive mantissa exponent positive)) := by
  cases plain with
  | infinity => exact .infinity
  | zero => exact .zero
  | finite => exact plain_roundWithAccuracy _ _ _ _

theorem add (plain : PlainUnpacked left) (plain' : PlainUnpacked right) (spec : Format) :
    PlainUnpacked (UnpackedFloat.add spec left right) := by
  cases plain with
  | infinity => cases plain' <;> exact .infinity
  | zero =>
      cases plain' with
      | infinity => exact .infinity
      | zero => exact .zero
      | finite => exact .finite _ _ _
  | finite =>
      cases plain' with
      | infinity => exact .infinity
      | zero => exact .finite _ _ _
      | finite =>
          refine plain_normalize _ ?_ _
          exact Int.add_nonneg (Int.natCast_nonneg _) (Int.natCast_nonneg _)

end PlainUnpacked

def Positive (number : Float) : Prop :=
  0 < number.toBits.toNat ∧ number.toBits.toNat < 2047 * 2 ^ 52

instance (number : Float) : Decidable (Positive number) := inferInstanceAs (Decidable (_ ∧ _))

theorem Positive.unpacked {number : Float} (isPositive : Positive number) :
    ∃ mantissa exponent positive,
      number.toModel.unpack = .finite .positive mantissa exponent positive := by
  obtain ⟨low, high⟩ := isPositive
  obtain ⟨equal, -⟩ | ⟨equal, -⟩ | finite := unpack_of_toNat (Nat.le_of_lt high)
  · exact absurd equal (Nat.ne_of_lt high)
  · exact absurd equal (Nat.ne_of_gt low)
  · exact finite

namespace Plain

variable {left right : Float}

theorem mul (plain : Plain left) (positive : Positive right) : Plain (left * right) := by
  obtain ⟨mantissa, exponent, isPositive, equal⟩ := positive.unpacked
  change Plain (.ofModel (.pack (UnpackedFloat.mul _ left.toModel.unpack right.toModel.unpack)))
  rw [equal]
  exact plain_ofModel_pack (plain.unpacked.mul _ isPositive)

theorem div (plain : Plain left) (positive : Positive right) : Plain (left / right) := by
  obtain ⟨mantissa, exponent, isPositive, equal⟩ := positive.unpacked
  change Plain (.ofModel (.pack (UnpackedFloat.div _ left.toModel.unpack right.toModel.unpack)))
  rw [equal]
  exact plain_ofModel_pack (plain.unpacked.div _ isPositive)

theorem add (plain : Plain left) (plain' : Plain right) : Plain (left + right) :=
  plain_ofModel_pack (plain.unpacked.add plain'.unpacked _)

end Plain

theorem positive_powerOfTen : ∀ power ∈ Float.exactlyRepresentablePowersOfTen, Positive power := by
  decide

theorem plain_unpackedOfScientific (spec : Format) (significand : Nat) (exponent : Int) :
    PlainUnpacked (UnpackedFloat.ofScientific spec significand exponent) := by
  unfold UnpackedFloat.ofScientific
  split
  · exact .zero
  · split
    · exact .infinity
    · split
      · exact .zero
      · split
        · exact PlainUnpacked.mul (.finite _ _ _) _ _
        · exact PlainUnpacked.div (.finite _ _ _) _ _

theorem plain_ofScientific (significand : Nat) (negative : Bool) (exponent : Nat) :
    Plain (Float.ofScientific significand negative exponent) := by
  unfold Float.ofScientific
  split
  · have plain : Plain significand.toUInt64.toFloat :=
      plain_ofModel_pack (plain_normalize _ (Int.natCast_nonneg _) _)
    dsimp only
    split
    · exact plain.div (positive_powerOfTen _ (Array.getElem_mem _))
    · exact plain.mul (positive_powerOfTen _ (Array.getElem_mem _))
  · exact plain_ofModel_pack (plain_unpackedOfScientific _ _ _)

theorem plain_ofNat (number : Nat) : Plain (Float.ofNat number) :=
  plain_ofScientific number false 0

/-! ## Literals -/

theorem Decimal.plain_toFloat (decimal : Decimal) : Plain decimal.toFloat := by
  unfold Decimal.toFloat
  dsimp only
  split
  · decide
  · split
    · decide
    · exact plain_ofScientific _ _ _

theorem plain_ofRadixDigits {radix : Nat} (known : radix = 2 ∨ radix = 8 ∨ radix = 16)
    (digits : List Char) : Plain (ofRadixDigits radix digits) := by
  have positive : Positive (Float.ofNat radix) := by
    rcases known with rfl | rfl | rfl <;> decide
  have fold : ∀ start, Plain start → Plain (digits.foldl (fun value c =>
      value * Float.ofNat radix + Float.ofNat ((digitValue? radix c).getD 0)) start) := by
    induction digits with
    | nil => exact fun start plain => plain
    | cons digit digits induction =>
        intro start plain
        exact induction _ ((plain.mul positive).add (plain_ofNat _))
  exact fold 0.0 (by decide)

theorem Plain.not_isNaN {number : Float} (plain : Plain number) : number.isNaN = false := by
  change number.toModel.unpack.isNaN = false
  have unpacked := plain.unpacked
  generalize number.toModel.unpack = form at unpacked
  cases unpacked <;> rfl

theorem Plain.not_hasSign {number : Float} (plain : Plain number) : hasSign number = false := by
  unfold Plain at plain
  simp only [hasSign, Dyadic.ofFloat, beq_eq_false_iff_ne]
  omega

theorem Plain.precedence {number : Float} (plain : Plain number) :
    Number.precedence number = Precedence.primary ∨ number.isInf = true := by
  have unpacked := plain.unpacked
  simp only [Number.precedence, plain.not_hasSign, Float.isFinite, Float.isInf,
    Float.Model.isFinite, Float.Model.isInf]
  generalize number.toModel.unpack = form at unpacked
  cases unpacked with
  | infinity => exact .inr rfl
  | zero => exact .inl rfl
  | finite => exact .inl rfl

theorem not_isInf {number : Float} (finite : number.isFinite = true) : number.isInf = false := by
  change number.toModel.unpack.isFinite = true at finite
  change number.toModel.unpack.isInf = false
  cases form : number.toModel.unpack with
  | infinity => rw [form] at finite; cases finite
  | notANumber | zero | finite => rfl

theorem Plain.isFinite {number : Float} (plain : Plain number) (notInfinite : number.isInf = false) :
    number.isFinite = true := by
  have unpacked := plain.unpacked
  simp only [Float.isFinite, Float.isInf, Float.Model.isFinite, Float.Model.isInf] at *
  generalize number.toModel.unpack = form at unpacked notInfinite
  cases unpacked with
  | infinity => cases notInfinite
  | zero => rfl
  | finite => rfl

end ExprScript.Number
