import Mathlib.Data.Int.ModEq
import ExprScript.Eval.Operator
import ExprScript.Proofs.Number.Integer

/-! # Bitwise operators are operations on words of 32 bits

A number stands for the word of its integer part modulo `2 ^ 32`, whether the word is read
with a sign or without one. The operators work on these words.
-/

namespace ExprScript

namespace Number

def word (number : Float) : BitVec 32 := BitVec.ofInt 32 (integerPart number)

theorem toInt_toSigned_modEq (number : Float) :
    (toSigned number).toInt ≡ integerPart number [ZMOD 2 ^ 32] := by
  rw [toInt_toSigned]
  exact Int.bmod_emod

theorem exactly_ofSigned (integer : Int32) : Exactly (ofSigned integer) integer.toInt := by
  have low := integer.le_toInt
  have high := integer.toInt_lt
  exact exactly_ofInt (by omega)

theorem exactly_ofUnsigned (integer : UInt32) : Exactly (ofUnsigned integer) integer.toNat := by
  have high := integer.toNat_lt
  exact exactly_ofNat (by omega)

/-! ## Shifts -/

theorem toNat_shiftCount (number : Float) :
    (shiftCount number).toNat = (word number).toNat % 32 := by
  rw [shiftCount, UInt32.toNat_and, ← UInt32.toNat_toBitVec (toUnsigned number),
    toBitVec_toUnsigned]
  exact Nat.and_two_pow_sub_one_eq_mod _ 5

theorem smod_of_lt {count : BitVec 32} (small : count.toNat < 32) : count.smod 32 = count := by
  have positive : count.msb = false := BitVec.msb_eq_false_iff_two_mul_lt.mpr (by omega)
  rw [BitVec.smod_eq, positive]
  exact BitVec.umod_eq_of_lt small

theorem distance (number : Float) :
    ((shiftCount number).toInt32.toBitVec.smod 32).toNat = (word number).toNat % 32 := by
  have count := toNat_shiftCount number
  have small : (shiftCount number).toInt32.toBitVec.toNat < 32 := by
    change (shiftCount number).toNat < 32
    omega
  rw [smod_of_lt small]
  exact count

theorem toInt_shiftLeft (first second : Float) :
    (toSigned first <<< (shiftCount second).toInt32).toInt =
      (word first <<< ((word second).toNat % 32)).toInt := by
  rw [← Int32.toInt_toBitVec, Int32.toBitVec_shiftLeft, toBitVec_toSigned, BitVec.shiftLeft_eq',
    distance]
  rfl

theorem toInt_shiftRight (first second : Float) :
    (toSigned first >>> (shiftCount second).toInt32).toInt =
      ((word first).sshiftRight ((word second).toNat % 32)).toInt := by
  rw [← Int32.toInt_toBitVec, Int32.toBitVec_shiftRight, toBitVec_toSigned,
    BitVec.sshiftRight_eq', distance]
  rfl

theorem toNat_shiftRight (first second : Float) :
    (toUnsigned first >>> shiftCount second).toNat =
      (word first >>> ((word second).toNat % 32)).toNat := by
  rw [UInt32.toNat_shiftRight, toNat_shiftCount, Nat.mod_mod, ← UInt32.toNat_toBitVec,
    toBitVec_toUnsigned, BitVec.toNat_ushiftRight]
  rfl

end Number

structure GivesInteger (outcome : Except Error Value) (integer : Int) : Prop where
  number : outcome = .ok (.number (Float.ofInt integer))
  exactly : Number.Exactly (Float.ofInt integer) integer

theorem GivesInteger.signed {integer : Int32} {result : Int} (same : integer.toInt = result) :
    GivesInteger (.ok (.number (Number.ofSigned integer))) result :=
  same ▸ ⟨rfl, Number.exactly_ofSigned integer⟩

theorem GivesInteger.unsigned {integer : UInt32} {result : Nat} (same : integer.toNat = result) :
    GivesInteger (.ok (.number (Number.ofUnsigned integer))) result :=
  same ▸ ⟨rfl, Number.exactly_ofUnsigned integer⟩

namespace Heap

def word (heap : Heap) (value : Value) : BitVec 32 := Number.word (heap.toNumber value)

open Number in
/-- The two conversions to integers of 32 bits reduce the integer part modulo `2 ^ 32`, and the
bitwise operators are the operations on the words of their operands. -/
theorem bitwise_on_words :
    (∀ number : Float,
      ((toUnsigned number).toNat : Int) = integerPart number % 2 ^ 32 ∧
      (toSigned number).toInt ≡ integerPart number [ZMOD 2 ^ 32] ∧
      -2 ^ 31 ≤ (toSigned number).toInt ∧ (toSigned number).toInt < 2 ^ 31) ∧
    ∀ (heap : Heap) (left right : Value),
      let first := heap.word left
      let second := heap.word right
      let count := second.toNat % 32
      GivesInteger (heap.binary (.arithmetic .bitAnd) left right) (first &&& second).toInt ∧
      GivesInteger (heap.binary (.arithmetic .bitOr) left right) (first ||| second).toInt ∧
      GivesInteger (heap.binary (.arithmetic .bitXor) left right) (first ^^^ second).toInt ∧
      GivesInteger (.ok (heap.unary .bitNot left)) (~~~first).toInt ∧
      GivesInteger (heap.binary (.arithmetic .shiftLeft) left right) (first <<< count).toInt ∧
      GivesInteger (heap.binary (.arithmetic .shiftRight) left right)
        (first.sshiftRight count).toInt ∧
      GivesInteger (heap.binary (.arithmetic .shiftRightUnsigned) left right)
        (first >>> count).toNat := by
  refine ⟨fun number => ?_, fun heap left right => ?_⟩
  · exact ⟨toNat_toUnsigned number, toInt_toSigned_modEq number, (toSigned number).le_toInt,
      (toSigned number).toInt_lt⟩
  · have bits (value : Value) : (toSigned (heap.toNumber value)).toBitVec = heap.word value :=
      toBitVec_toSigned _
    refine ⟨.signed ?_, .signed ?_, .signed ?_, .signed ?_, .signed (toInt_shiftLeft _ _),
      .signed (toInt_shiftRight _ _), .unsigned (toNat_shiftRight _ _)⟩
    · rw [← Int32.toInt_toBitVec, Int32.toBitVec_and, bits, bits]
    · rw [← Int32.toInt_toBitVec, Int32.toBitVec_or, bits, bits]
    · rw [← Int32.toInt_toBitVec, Int32.toBitVec_xor, bits, bits]
    · rw [← Int32.toInt_toBitVec, Int32.toBitVec_not, bits]

end Heap

end ExprScript
