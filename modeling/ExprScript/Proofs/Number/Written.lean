import ExprScript.Proofs.Number.Placement
import ExprScript.Proofs.Number.Scientific
import ExprScript.Tree.Printer

/-! # How a number is written is how it is read

The text of a finite number is decimal notation of its shortest digits. Reading
it gives the number again if the digits themselves do.
-/

namespace ExprScript.Number

open Reader Float.Model

/-! ## The size of the shortest decimal -/

theorem length_toDigits_le {number count : Nat} (some : 0 < count)
    (small : number < 10 ^ count) : (Nat.toDigits 10 number).length ≤ count :=
  (Nat.length_toDigits_le_iff (by decide) some).mpr small

theorem decimalLength_le {number count : Nat} (some : 0 < count) (small : number < 10 ^ count) :
    decimalLength number ≤ count := by
  unfold decimalLength
  split
  · omega
  · exact length_toDigits_le some small

theorem pow_two_le_pow_ten {first second : Nat} (within : first ≤ second) :
    2 ^ first ≤ 10 ^ second :=
  Nat.le_trans (Nat.pow_le_pow_left (by decide) first) (Nat.pow_le_pow_right (by decide) within)

theorem lt_pow_ten {number count : Nat} (small : number < 2 ^ count) : number < 10 ^ count :=
  Nat.lt_of_lt_of_le small (pow_two_le_pow_ten (Nat.le_refl count))

theorem leadingPlace_bounds {mantissa : Nat} {exponent : Int} (small : mantissa < 2 ^ 53)
    (low : -1074 ≤ exponent) (high : exponent ≤ 972) :
    -1075 ≤ leadingPlace mantissa exponent ∧ leadingPlace mantissa exponent ≤ 1025 := by
  unfold leadingPlace
  simp only [Nat.shiftLeft_eq, Nat.one_mul]
  split
  · have numerator : mantissa * 2 ^ exponent.toNat < 2 ^ 1025 := by
      calc mantissa * 2 ^ exponent.toNat < 2 ^ 53 * 2 ^ exponent.toNat :=
            Nat.mul_lt_mul_of_pos_right small (Nat.two_pow_pos _)
        _ = 2 ^ (53 + exponent.toNat) := (pow_add ..).symm
        _ ≤ 2 ^ 1025 := pow_le_pow_right₀ (by decide) (by omega)
    have quotient := Nat.lt_of_le_of_lt (Nat.div_le_self _ (2 ^ (-exponent).toNat)) numerator
    have length := decimalLength_le (by decide) (lt_pow_ten quotient)
    omega
  · have denominator : 2 ^ (-exponent).toNat - 1 < 2 ^ 1074 := by
      calc 2 ^ (-exponent).toNat - 1 < 2 ^ (-exponent).toNat :=
            Nat.sub_lt (Nat.two_pow_pos _) (by decide)
        _ ≤ 2 ^ 1074 := pow_le_pow_right₀ (by decide) (by omega)
    have quotient := Nat.lt_of_le_of_lt
      (Nat.div_le_self _ (mantissa * 2 ^ exponent.toNat)) denominator
    have length := decimalLength_le (by decide) (lt_pow_ten quotient)
    rw [Int.ofNat_eq_natCast]
    omega

theorem nearestOnGrid_le {interval : Interval} {exponent place : Int} {tie : Tie} {candidate : Nat}
    (found : interval.nearestOnGrid exponent place tie = some candidate) :
    candidate ≤ interval.centre * (10 ^ (-place).toNat * 2 ^ exponent.toNat) + 1 := by
  have quotient : interval.centre * (10 ^ (-place).toNat * 2 ^ exponent.toNat) /
      (10 ^ place.toNat * 2 ^ (-exponent).toNat) ≤
        interval.centre * (10 ^ (-place).toNat * 2 ^ exponent.toNat) := Nat.div_le_self _ _
  unfold Interval.nearestOnGrid at found
  simp only [Nat.shiftLeft_eq, Nat.pow_eq] at found
  split at found
  · injection found with equal
    rw [← equal]
    split <;> split <;> omega
  · cases found; omega
  · cases found; omega
  · cases found

/-- The shortest decimal of a finite number is of moderate size. -/
theorem shortest_bounds {mantissa : Nat} {exponent : Int} (small : mantissa < 2 ^ 53)
    (low : -1074 ≤ exponent) (high : exponent ≤ 972) (tie : Tie) :
    (shortest mantissa exponent tie).significand < 10 ^ 2200 ∧
      -1100 ≤ (shortest mantissa exponent tie).exponent ∧
      (shortest mantissa exponent tie).exponent ≤ 1100 := by
  unfold shortest
  dsimp only
  generalize found : List.findSome? _ _ = result
  cases result with
  | none =>
      exact ⟨pow_pos (by decide) 2200, by decide, by decide⟩
  | some decimal =>
      rcases List.exists_of_findSome?_eq_some found with ⟨index, member, attempt⟩
      rcases Option.map_eq_some_iff.mp attempt with ⟨candidate, onGrid, rfl⟩
      rcases leadingPlace_bounds small low high with ⟨lowest, highest⟩
      have index_lt := List.mem_range.mp member
      have bound := nearestOnGrid_le onGrid
      have product : 4 * mantissa *
          (10 ^ (-(leadingPlace mantissa exponent - (index + 1 : Nat))).toNat *
            2 ^ (exponent - 2).toNat) < 10 ^ 2199 := by
        have centre : 4 * mantissa < 10 ^ 55 := by omega
        have power : (exponent - 2).toNat ≤ 970 := by omega
        have power' : (-(leadingPlace mantissa exponent - (index + 1 : Nat))).toNat ≤ 1174 := by
          omega
        have scale : 2 ^ (exponent - 2).toNat ≤ 10 ^ 970 := @pow_two_le_pow_ten _ 970 power
        have scale' : 10 ^ (-(leadingPlace mantissa exponent - (index + 1 : Nat))).toNat ≤
            10 ^ 1174 := pow_le_pow_right₀ (by decide) power'
        calc _ < 10 ^ 55 * (10 ^ (-(leadingPlace mantissa exponent - (index + 1 : Nat))).toNat *
              2 ^ (exponent - 2).toNat) :=
              Nat.mul_lt_mul_of_pos_right centre
                (Nat.mul_pos (Nat.pow_pos (by decide)) (Nat.two_pow_pos _))
          _ ≤ 10 ^ 55 * (10 ^ 1174 * 10 ^ 970) :=
              Nat.mul_le_mul_left _ (Nat.mul_le_mul scale' scale)
          _ = 10 ^ 2199 := by rw [← pow_add, ← pow_add]
      have small' : candidate < 10 ^ 2200 := by
        have wider : 10 ^ 2199 < 10 ^ 2200 := pow_lt_pow_right₀ (by decide) (by decide)
        exact Nat.lt_of_le_of_lt (Nat.le_trans bound (Nat.succ_le_of_lt product)) wider
      rw [Option.getD_some]
      unfold Decimal.ofGrid
      split
      · exact ⟨one_lt_pow₀ (by decide) (by decide), by dsimp only; omega, by dsimp only; omega⟩
      · exact ⟨small', by dsimp only; omega, by dsimp only; omega⟩

theorem Dyadic.ofFloat_bounds (number : Float) :
    (Dyadic.ofFloat number).mantissa < 2 ^ 53 ∧ -1074 ≤ (Dyadic.ofFloat number).exponent ∧
      (Dyadic.ofFloat number).exponent ≤ 972 := by
  have bit : hiddenBit = 2 ^ 52 := rfl
  simp only [Dyadic.ofFloat, bit, Nat.shiftRight_eq_div_pow, Int.ofNat_eq_natCast]
  refine ⟨?_, ?_, ?_⟩
  · split <;> omega
  · omega
  · omega

/-! ## The text of a number -/

def ReadsBack (number : Float) : Prop :=
  (shortest (Dyadic.ofFloat number).mantissa (Dyadic.ofFloat number).exponent
    standard.tie).toFloat = number

theorem eq_of_toBits {first second : Float} (same : first.toBits.toBitVec = second.toBits.toBitVec) :
    first = second := by
  rcases first with ⟨⟨bits, valid⟩⟩
  rcases second with ⟨⟨bits', valid'⟩⟩
  have equal : bits = bits' := UInt64.toBitVec_inj.mp same
  subst equal
  rfl

instance (number : Float) : Decidable (ReadsBack number) :=
  decidable_of_iff ((shortest (Dyadic.ofFloat number).mantissa (Dyadic.ofFloat number).exponent
      standard.tie).toFloat.toBits.toBitVec = number.toBits.toBitVec)
    ⟨eq_of_toBits, fun same => by rw [same]⟩

def Denotes (text : List Char) (number : Float) : Prop :=
  ∃ whole fraction exponent, DecimalForm whole fraction exponent ∧
    text = whole ++ (fractionText fraction ++ exponentText exponent) ∧
    DecimalText.toFloat { whole, fraction, exponent } = number

/-- The standard layout places the point so that the digits denote the same
decimal. -/
theorem place_denotes {significand : Nat} {exponent point : Int} (positive : 0 < significand)
    (small : significand < 10 ^ 2200) (low : -1100 ≤ exponent) (high : exponent ≤ 1100)
    (isPoint : point = exponent + (Nat.toDigits 10 significand).length) :
    Denotes (standard.place (Nat.toDigits 10 significand) point)
      (Decimal.toFloat ⟨significand, exponent⟩) := by
  have significant := significant_toDigits positive
  have placement := place_placement significant.notEmpty (point - 1)
  rw [Int.sub_add_cancel] at placement
  rcases placement.parts significant with ⟨whole, fraction, written, zeros, parts, text⟩
  have below : significand < 10 ^ (Nat.toDigits 10 significand).length :=
    (Nat.length_toDigits_le_iff (by decide) Nat.length_toDigits_pos).mp (Nat.le_refl _)
  have length : (Nat.toDigits 10 significand).length ≤ 2200 :=
    length_toDigits_le (by decide) small
  clear small
  have scale := parts.scale
  have bound : written.natAbs < exponentLimit := by
    unfold exponentLimit
    rcases parts.written with isZero | isExponent <;> omega
  refine ⟨whole, fraction, written, ⟨parts.wholeDigits, parts.notEmpty, parts.leading,
    parts.fractionDigits, bound⟩, text, ?_⟩
  rw [DecimalText.toFloat, parts.significand, digitsToNat_toDigits]
  dsimp only
  rcases parts.isWhole with rfl | ⟨rfl, rfl, few⟩
  · rw [Nat.pow_zero, Nat.mul_one]
    congr 2
    omega
  · have size : significand * 10 ^ zeros < 10 ^ 22 := by
      calc significand * 10 ^ zeros
          < 10 ^ (Nat.toDigits 10 significand).length * 10 ^ zeros :=
            Nat.mul_lt_mul_of_pos_right below (Nat.pow_pos (by decide))
        _ = 10 ^ ((Nat.toDigits 10 significand).length + zeros) := (Nat.pow_add ..).symm
        _ ≤ 10 ^ 22 := Nat.pow_le_pow_right (by decide) (by omega)
    have same : exponent = zeros := by
      rw [List.length_nil] at scale
      omega
    rw [same]
    exact Decimal.toFloat_zeros positive (by omega) size

theorem Plain.eq_zero {number : Float} (plain : Plain number) (isZero : (number == 0.0) = true) :
    number = 0.0 := by
  change number.toModel.unpack.beq (UnpackedFloat.zero .positive) = true at isZero
  rcases number with ⟨⟨bits, valid⟩⟩
  change (UnpackedFloat.unpack Format.binary64 bits.toBitVec).beq _ = true at isZero
  rcases @unpack_of_toNat bits.toBitVec plain with
    ⟨-, equal⟩ | ⟨isZero, -⟩ | ⟨mantissa, exponent, positive, equal⟩
  · rw [equal] at isZero
    cases isZero
  · have equal : bits = 0 := UInt64.toNat_inj.mp isZero
    subst equal
    rfl
  · rw [equal] at isZero
    cases isZero

theorem print_denotes {number : Float} (plain : Plain number) (finite : number.isInf = false)
    (readsBack : ReadsBack number) : Denotes (Number.print number).toList number := by
  have notNaN := plain.not_isNaN
  rw [Number.print, notNaN, finite]
  simp only [Bool.false_eq_true, if_false, toText, Layout.write, notNaN]
  split
  · next isZero =>
      rw [plain.eq_zero isZero]
      refine ⟨['0'], [], 0, ⟨allDigits_zeros 1, by decide, fun _ => rfl, nofun, by decide⟩, ?_, ?_⟩
      · rfl
      · decide
  · next notZero =>
      rcases Dyadic.ofFloat_bounds number with ⟨small, low, high⟩
      have bounds := shortest_bounds small low high standard.tie
      rw [plain.not_hasSign, finite]
      unfold ReadsBack at readsBack
      generalize shortest (Dyadic.ofFloat number).mantissa (Dyadic.ofFloat number).exponent
        standard.tie = decimal at *
      rcases decimal with ⟨significand, exponent⟩
      have positive : 0 < significand := by
        apply Nat.pos_of_ne_zero
        rintro rfl
        have isZero : Decimal.toFloat ⟨0, exponent⟩ = 0.0 := by simp [Decimal.toFloat]
        rw [← readsBack, isZero] at notZero
        exact notZero rfl
      have denotes := place_denotes positive bounds.1 bounds.2.1 bounds.2.2 rfl
      rw [readsBack] at denotes
      simpa [Layout.digitsAndPoint] using denotes

end ExprScript.Number
