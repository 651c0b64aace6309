import Mathlib.Algebra.Order.Field.Rat
import Mathlib.Tactic.Ring
import ExprScript.Number.Layout
import ExprScript.Proofs.Token.Decimal

/-! # Where the decimal point is placed

Numbers are written in one of four forms, which differ in where the point stands among
the digits: behind them, between them, in front of them, or behind the first of them with an
exponent that makes up for it. Every form denotes the same decimal.
-/

namespace ExprScript.Number

open Reader

/-! ## Digits -/

theorem digitsToNat_append (first second : List Char) :
    digitsToNat 10 (first ++ second) =
      second.foldl (fun value c => value * 10 + (digitValue? 10 c).getD 0)
        (digitsToNat 10 first) := by
  rw [digitsToNat, List.foldl_append]
  rfl

theorem digitsToNat_toDigits (number : Nat) : digitsToNat 10 (Nat.toDigits 10 number) = number := by
  induction number using Nat.strongRecOn with
  | ind number induction =>
      rw [Nat.toDigits_eq_if (by decide)]
      split
      · next small => simp [digitsToNat, digitValue?_digitChar number small]
      · next large =>
          have digit := digitValue?_digitChar (number % 10) (by omega)
          rw [digitsToNat_append, induction (number / 10) (by omega)]
          simp only [List.foldl_cons, List.foldl_nil, digit, Option.getD_some]
          omega

theorem digitsToNat_append_zeros (digits : List Char) (count : Nat) :
    digitsToNat 10 (digits ++ Layout.zeros count) = digitsToNat 10 digits * 10 ^ count := by
  induction count with
  | zero => simp [Layout.zeros]
  | succ count induction =>
      have last : Layout.zeros (count + 1) = Layout.zeros count ++ ['0'] := List.replicate_succ'
      rw [last, ← List.append_assoc, digitsToNat_append, induction, Nat.pow_succ, ← Nat.mul_assoc]
      rfl

theorem digitsToNat_zeros_append (count : Nat) (digits : List Char) :
    digitsToNat 10 (Layout.zeros count ++ digits) = digitsToNat 10 digits := by
  have zero : digitsToNat 10 (Layout.zeros count) = 0 := by
    simpa [digitsToNat] using digitsToNat_append_zeros [] count
  rw [digitsToNat_append, zero]
  rfl

theorem head_toDigits {number : Nat} (positive : 0 < number) :
    (Nat.toDigits 10 number).head? ≠ some '0' := by
  induction number using Nat.strongRecOn with
  | ind number induction =>
      rw [Nat.toDigits_eq_if (by decide)]
      split
      · simp; omega
      · next large =>
          have shorter := induction (number / 10) (by omega) (by omega)
          cases digits : Nat.toDigits 10 (number / 10) with
          | nil => exact absurd digits Nat.toDigits_ne_nil
          | cons first others => rwa [digits] at shorter

theorem allDigits_toDigits (number : Nat) : AllDigits (Nat.toDigits 10 number) :=
  fun _ member => Nat.isDigit_of_mem_toDigits (by decide) (by decide) member

theorem allDigits_zeros (count : Nat) : AllDigits (Layout.zeros count) := by
  intro c member
  rw [List.eq_of_mem_replicate member]
  rfl

theorem allDigits_append {first second : List Char} (left : AllDigits first)
    (right : AllDigits second) : AllDigits (first ++ second) :=
  List.forall_mem_append.mpr ⟨left, right⟩

/-- Digits without a leading zero. There is at least one. -/
structure Significant (digits : List Char) : Prop where
  notEmpty : digits ≠ []
  all : AllDigits digits
  leading : digits.head? ≠ some '0'

theorem significant_toDigits {number : Nat} (positive : 0 < number) :
    Significant (Nat.toDigits 10 number) where
  notEmpty := Nat.toDigits_ne_nil
  all := allDigits_toDigits number
  leading := head_toDigits positive

theorem Significant.of_append {front back : List Char} (significant : Significant (front ++ back))
    (notEmpty : front ≠ []) : Significant front where
  notEmpty := notEmpty
  all := fun c member => significant.all c (List.mem_append_left _ member)
  leading := by
    rw [← List.head?_append_of_ne_nil front notEmpty]
    exact significant.leading

/-! ## The four forms -/

/-- The text of the digits `d1 … dk` with the value `d1.d2 … dk * 10 ^ exponent`. Every
number of zeros and every place to split the digits is a natural number. -/
inductive Placement (digits : List Char) (exponent : Int) : List Char → Prop
  | behind {count : Nat} (place : (digits.length + count : Int) = exponent + 1)
      (few : digits.length + count ≤ 21) :
      Placement digits exponent (digits ++ Layout.zeros count)
  | between {front back : List Char} (parts : front ++ back = digits) (notEmpty : front ≠ [])
      (notEmpty' : back ≠ []) (place : (front.length : Int) = exponent + 1)
      (few : front.length ≤ 21) :
      Placement digits exponent (front ++ '.' :: back)
  | inFront {count : Nat} (place : -(count : Int) = exponent + 1) (few : count < 6) :
      Placement digits exponent ('0' :: '.' :: (Layout.zeros count ++ digits))
  | scientific {first : Char} {others : List Char} (parts : first :: others = digits)
      (far : exponent + 1 ≤ -6 ∨ 21 < exponent + 1) :
      Placement digits exponent (first :: (fractionText others ++ exponentText exponent))

theorem standard_exponentText {exponent : Int} (nonzero : exponent ≠ 0) :
    standard.exponentText exponent = exponentText exponent := by
  rw [exponentText, if_neg nonzero, Layout.exponentText]
  split <;> rfl

theorem place_placement {digits : List Char} (notEmpty : digits ≠ []) (exponent : Int) :
    Placement digits exponent (standard.place digits (exponent + 1)) := by
  have some := List.length_pos_of_ne_nil notEmpty
  unfold Layout.place
  by_cases positional : standard.lowestPoint < exponent + 1 ∧ exponent + 1 ≤ standard.highestPoint
  · rw [if_pos positional]
    change -6 < exponent + 1 ∧ exponent + 1 ≤ 21 at positional
    by_cases isWhole : (digits.length : Int) ≤ exponent + 1
    · rw [if_pos isWhole]
      change Placement _ _ (_ ++ _ ++ [])
      rw [List.append_nil]
      exact .behind (by omega) (by omega)
    · rw [if_neg isWhole]
      by_cases hasWhole : 0 < exponent + 1
      · rw [if_pos hasWhole]
        have inside : 0 < (exponent + 1).toNat ∧ (exponent + 1).toNat < digits.length := by omega
        refine .between (List.take_append_drop _ _) ?_ ?_ ?_ ?_
        · exact List.ne_nil_of_length_pos (by rw [List.length_take]; omega)
        · exact List.ne_nil_of_length_pos (by rw [List.length_drop]; omega)
        · rw [List.length_take]
          omega
        · rw [List.length_take]
          omega
      · rw [if_neg hasWhole]
        exact .inFront (by omega) (by omega)
  · rw [if_neg positional]
    change ¬ (-6 < exponent + 1 ∧ exponent + 1 ≤ 21) at positional
    cases digits with
    | nil => exact absurd rfl notEmpty
    | cons first others =>
        have nonzero : exponent ≠ 0 := by omega
        have isEmpty : (first :: others).length ≤ 1 ↔ others = [] := by
          rw [List.length_cons, ← List.length_eq_zero_iff]
          omega
        have same : [first] ++ (if (first :: others).length ≤ 1 then [] else '.' :: others) ++
            standard.exponentText (exponent + 1 - 1) =
              first :: (fractionText others ++ exponentText exponent) := by
          rw [Int.add_sub_cancel, standard_exponentText nonzero]
          simp only [isEmpty, fractionText]
          rfl
        exact same ▸ Placement.scientific rfl (by omega)

/-! ## The parts of a text -/

/-- Decimal notation whose digits and exponent give the digits with the point in its place.
The text may have some more zeros at the end. -/
structure Parts (digits : List Char) (exponent : Int) (whole fraction : List Char) (written : Int)
    (zeros : Nat) : Prop where
  wholeDigits : AllDigits whole
  notEmpty : whole ≠ []
  leading : whole.head? = some '0' → whole = ['0']
  fractionDigits : AllDigits fraction
  significand : digitsToNat 10 (whole ++ fraction) = digitsToNat 10 digits * 10 ^ zeros
  scale : written - fraction.length + zeros = exponent + 1 - digits.length
  isWhole : zeros = 0 ∨ written = 0 ∧ fraction = [] ∧ digits.length + zeros ≤ 21
  written : written = 0 ∨ written = exponent

theorem Placement.parts {digits text : List Char} {exponent : Int}
    (placement : Placement digits exponent text) (significant : Significant digits) :
    ∃ whole fraction written zeros, Parts digits exponent whole fraction written zeros ∧
      text = whole ++ (fractionText fraction ++ exponentText written) := by
  cases placement with
  | @behind count place few =>
      refine ⟨digits ++ Layout.zeros count, [], 0, count, {
        wholeDigits := allDigits_append significant.all (allDigits_zeros count)
        notEmpty := List.append_ne_nil_of_left_ne_nil significant.notEmpty _
        leading := fun head => ?_
        fractionDigits := nofun
        significand := by rw [List.append_nil, digitsToNat_append_zeros]
        scale := by rw [List.length_nil]; omega
        isWhole := .inr ⟨rfl, rfl, few⟩
        written := .inl rfl }, (List.append_nil _).symm⟩
      rw [List.head?_append_of_ne_nil _ significant.notEmpty] at head
      exact absurd head significant.leading
  | @between front back parts notEmpty notEmpty' place few =>
      subst parts
      have significant' := significant.of_append notEmpty
      refine ⟨front, back, 0, 0, {
        wholeDigits := significant'.all
        notEmpty := notEmpty
        leading := fun head => absurd head significant'.leading
        fractionDigits := fun c member => significant.all c (List.mem_append_right _ member)
        significand := by rw [Nat.pow_zero, Nat.mul_one]
        scale := by rw [List.length_append]; omega
        isWhole := .inl rfl
        written := .inl rfl }, ?_⟩
      rw [fractionText, if_neg notEmpty', exponentText, if_pos rfl, List.append_nil]
  | @inFront count place few =>
      refine ⟨['0'], Layout.zeros count ++ digits, 0, 0, {
        wholeDigits := allDigits_zeros 1
        notEmpty := by decide
        leading := fun _ => rfl
        fractionDigits := allDigits_append (allDigits_zeros count) significant.all
        significand := ?_
        scale := ?_
        isWhole := .inl rfl
        written := .inl rfl }, ?_⟩
      · rw [show ['0'] = Layout.zeros 1 from rfl, digitsToNat_zeros_append,
          digitsToNat_zeros_append, Nat.pow_zero, Nat.mul_one]
      · rw [List.length_append, Layout.zeros, List.length_replicate]
        omega
      · have notEmpty : Layout.zeros count ++ digits ≠ [] :=
          List.append_ne_nil_of_right_ne_nil _ significant.notEmpty
        rw [fractionText, if_neg notEmpty, exponentText, if_pos rfl, List.append_nil]
        rfl
  | @scientific first others parts far =>
      subst parts
      have significant' : Significant [first] := significant.of_append (List.cons_ne_nil _ _)
      exact ⟨[first], others, exponent, 0, {
        wholeDigits := significant'.all
        notEmpty := significant'.notEmpty
        leading := fun head => absurd head significant'.leading
        fractionDigits := fun c member => significant.all c (.tail _ member)
        significand := by rw [Nat.pow_zero, Nat.mul_one]; rfl
        scale := by rw [List.length_cons]; omega
        isWhole := .inl rfl
        written := .inr rfl }, rfl⟩

end ExprScript.Number
