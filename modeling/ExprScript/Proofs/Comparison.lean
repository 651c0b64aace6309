import ExprScript.Eval.Operator
import ExprScript.Proofs.Equality

/-! # Laws of comparison

Equality with conversion tries its cases in an order, and each of them either
decides or compares again with one side converted. On every heap that comes to
a result, which is the one that all conversions have when they are made at
once. So it does not depend on the order of the two sides, although they take
different cases. The order of texts is that of their encoding in units of
sixteen bits.
-/

namespace ExprScript

/-! ## The order of numbers -/

namespace Number

open Float.Model

theorem compare_swap (first second : UnpackedFloat) :
    first.compare second = (second.compare first).map Ordering.swap := by
  have signs : ∀ sign sign' : UnpackedFloat.Sign,
      compare sign sign' = (compare sign' sign).swap := by decide
  cases first with
  | notANumber => cases second <;> simp [UnpackedFloat.compare]
  | infinity sign =>
      cases second with
      | infinity sign' => simpa [UnpackedFloat.compare] using signs sign sign'
      | notANumber => simp [UnpackedFloat.compare]
      | _ => cases sign <;> rfl
  | zero sign =>
      cases second with
      | notANumber => simp [UnpackedFloat.compare]
      | zero sign' => rfl
      | _ sign' => cases sign' <;> rfl
  | finite sign mantissa exponent positive =>
      cases second with
      | notANumber => simp [UnpackedFloat.compare]
      | zero sign' => cases sign <;> rfl
      | infinity sign' => cases sign' <;> rfl
      | finite sign' mantissa' exponent' positive' =>
          have places : ((compare exponent exponent').then (compare mantissa mantissa')) =
              ((compare exponent' exponent).then (compare mantissa' mantissa)).swap := by
            rw [Ordering.swap_then, ← Std.OrientedCmp.eq_swap, ← Std.OrientedCmp.eq_swap]
          cases sign <;> cases sign' <;> simp [UnpackedFloat.compare, places]

theorem compare?_eq (first second : Float) :
    compare? first second = first.toModel.unpack.compare second.toModel.unpack := by
  have less : ∀ first second : Float, first < second ↔
      first.toModel.unpack.compare second.toModel.unpack = some .lt := by
    intro first second
    change decide (Float.Model.lt _ _ = true) = true ↔ _
    rw [decide_eq_true_iff]
    exact beq_iff_eq
  have equal : (first == second) = true ↔
      first.toModel.unpack.compare second.toModel.unpack = some .eq := by
    change first.toModel.unpack.beq second.toModel.unpack = true ↔ _
    exact beq_iff_eq
  have swapped := compare_swap second.toModel.unpack first.toModel.unpack
  unfold compare?
  simp only [less, equal, swapped]
  rcases first.toModel.unpack.compare second.toModel.unpack with _ | order
  · rfl
  · cases order <;> rfl

theorem compare?_swap (first second : Float) :
    compare? first second = (compare? second first).map Ordering.swap := by
  rw [compare?_eq, compare?_eq, compare_swap]

end Number

/-! ## The order of texts -/

namespace Text

theorem compareUnits_eq (first second : List Nat) :
    compareUnits first second = compare first second := by
  induction first generalizing second with
  | nil => cases second <;> rfl
  | cons unit units induction =>
      cases second with
      | nil => rfl
      | cons unit' units' => rw [compareUnits, List.compare_cons_cons, induction]

/-- The units of a character tell where they end: a character of one unit is no
half of a pair, and the halves of a pair tell the character. -/
theorem unitsOfChar_append {first second : Char} {rest rest' : List Nat}
    (same : unitsOfChar first ++ rest = unitsOfChar second ++ rest') :
    first = second ∧ rest = rest' := by
  have whole : ∀ c : Char, c.toNat < 0xd800 ∨ (0xdfff < c.toNat ∧ c.toNat < 0x110000) :=
    fun c => c.valid
  have narrow := whole first
  have narrow' := whole second
  unfold unitsOfChar at same
  simp only at same
  split at same <;> split at same <;>
    simp only [List.cons_append, List.nil_append, List.cons.injEq] at same
  · exact ⟨Char.toNat_inj.mp same.1, same.2⟩
  · omega
  · omega
  · exact ⟨Char.toNat_inj.mp (by omega), same.2.2⟩

theorem units_injective : Function.Injective units := by
  have injective : ∀ first second : List Char,
      first.flatMap unitsOfChar = second.flatMap unitsOfChar → first = second := by
    have nonempty : ∀ c, unitsOfChar c ≠ [] := by
      intro c
      unfold unitsOfChar
      simp only
      split <;> simp
    intro first
    induction first with
    | nil =>
        intro second same
        cases second with
        | nil => rfl
        | cons c rest =>
            simp only [List.flatMap_nil, List.flatMap_cons] at same
            exact absurd (List.append_eq_nil_iff.mp same.symm).1 (nonempty c)
    | cons c rest induction =>
        intro second same
        cases second with
        | nil =>
            simp only [List.flatMap_nil, List.flatMap_cons] at same
            exact absurd (List.append_eq_nil_iff.mp same).1 (nonempty c)
        | cons c' rest' =>
            simp only [List.flatMap_cons] at same
            rcases unitsOfChar_append same with ⟨rfl, same'⟩
            rw [induction rest' same']
  intro first second same
  exact String.toList_injective (injective _ _ same)

/-- The order of two texts. -/
def order (first second : String) : Ordering :=
  compareUnits (units first) (units second)

/-- The order of texts orders any two of them, and in one way around. -/
instance : Std.TransCmp order where
  eq_swap := by
    intro first second
    simp only [order, compareUnits_eq]
    exact Std.OrientedCmp.eq_swap
  isLE_trans := by
    intro first second third
    simp only [order, compareUnits_eq]
    exact Std.TransCmp.isLE_trans

/-- Texts have the same place in the order only if they are the same. -/
instance : Std.LawfulEqCmp order where
  compare_self := by
    intro text
    simp only [order, compareUnits_eq]
    exact Std.ReflCmp.compare_self
  eq_of_compare := by
    intro first second same
    simp only [order, compareUnits_eq] at same
    exact units_injective (Std.LawfulEqCmp.eq_of_compare same)

end Text

/-! ## Equality with conversion -/

namespace Value

variable {first second : Value}

theorem strictEqual_comm (first second : Value) :
    first.strictEqual second = second.strictEqual first := by
  cases first <;> cases second <;> simp only [strictEqual, BEq.comm]

theorem isNullish_eq_of_strictEqual (equal : first.strictEqual second = true) :
    first.isNullish = second.isNullish := by
  cases first <;> cases second <;> first | rfl | cases equal

theorem conversions_le (value : Value) : value.conversions ≤ 1 := by
  cases value <;> first | exact Nat.le_refl _ | exact Nat.zero_le _

/-- Equality of two primitive values, of which no side is converted any more but for texts
beside numbers. -/
def primitiveEqual : Value → Value → Bool
  | .number first, .string second => first == Number.ofText second
  | .string first, .number second => Number.ofText first == second
  | first, second => strictEqual first second

theorem primitiveEqual_comm (first second : Value) :
    first.primitiveEqual second = second.primitiveEqual first := by
  cases first <;> cases second <;> simp only [primitiveEqual, strictEqual_comm, BEq.comm]

def withoutBoolean : Value → Value
  | .boolean value => ofBoolean value
  | value => value

theorem withoutBoolean_of_ne {value : Value}
    (notBoolean : ∀ isTrue, value = .boolean isTrue → False) : value.withoutBoolean = value := by
  cases value with
  | boolean isTrue => exact (notBoolean isTrue rfl).elim
  | _ => rfl

theorem primitiveEqual_of_ne
    (notNumber : ∀ number text, first = .number number → second = .string text → False)
    (notText : ∀ text number, first = .string text → second = .number number → False) :
    first.primitiveEqual second = first.strictEqual second := by
  unfold primitiveEqual
  split
  · exact (notNumber _ _ rfl rfl).elim
  · exact (notText _ _ rfl rfl).elim
  · rfl

theorem isObjectLike_eq_of_strictEqual (equal : first.strictEqual second = true) :
    first.withoutBoolean.isObjectLike = second.withoutBoolean.isObjectLike := by
  cases first <;> cases second <;> first | rfl | cases equal

theorem primitiveEqual_of_strictEqual (equal : first.strictEqual second = true) :
    first.withoutBoolean.primitiveEqual second.withoutBoolean = true := by
  cases first <;> cases second <;> first | cases equal; done | skip
  case boolean.boolean value other =>
    cases eq_of_beq equal
    cases value <;> decide +kernel
  all_goals exact equal

end Value

namespace Heap

variable {heap : Heap} {first second : Value}

/-- Equality with conversion, with all conversions made at once: booleans become numbers,
and a value of the heap becomes its text beside a primitive one. -/
def convertedEqual (heap : Heap) (first second : Value) : Bool :=
  if first.isNullish || second.isNullish then first.isNullish && second.isNullish
  else
    let first := first.withoutBoolean
    let second := second.withoutBoolean
    if first.isObjectLike && !second.isObjectLike then
      (heap.toPrimitive first).primitiveEqual second
    else if !first.isObjectLike && second.isObjectLike then
      first.primitiveEqual (heap.toPrimitive second)
    else first.primitiveEqual second

theorem convertedEqual_comm (heap : Heap) (first second : Value) :
    heap.convertedEqual first second = heap.convertedEqual second first := by
  unfold convertedEqual
  rw [Bool.or_comm, Bool.and_comm]
  split
  · rfl
  · generalize first.withoutBoolean = first
    generalize second.withoutBoolean = second
    cases left : first.isObjectLike <;> cases right : second.isObjectLike <;>
      simp [left, right, Value.primitiveEqual_comm]

theorem toPrimitive_eq_text (inHeap : first.isObjectLike = true) :
    heap.toPrimitive first = .string (heap.toText first) :=
  if_pos inHeap

theorem convertedEqual_toPrimitive_left (inHeap : first.isObjectLike = true)
    (apart : second.isObjectLike = false) :
    heap.convertedEqual (heap.toPrimitive first) second = heap.convertedEqual first second := by
  have converted : heap.convertedEqual first second =
      (!second.isNullish && (heap.toPrimitive first).primitiveEqual second.withoutBoolean) := by
    cases first <;> first | cases inHeap; done | skip
    all_goals cases second <;> first | cases apart; done | rfl
  rw [converted, toPrimitive_eq_text inHeap]
  cases second <;> first | cases apart; done | rfl

theorem convertedEqual_toPrimitive_right (apart : first.isObjectLike = false)
    (inHeap : second.isObjectLike = true) :
    heap.convertedEqual first (heap.toPrimitive second) = heap.convertedEqual first second := by
  rw [convertedEqual_comm, convertedEqual_toPrimitive_left inHeap apart, convertedEqual_comm]

theorem looseEqual_eq_convertedEqual (heap : Heap) (first second : Value) :
    heap.looseEqual first second = heap.convertedEqual first second := by
  fun_induction looseEqual heap first second with
  | case1 first second nullish => rw [convertedEqual, if_pos nullish]
  | case2 => rfl
  | case3 => rfl
  | case4 second value present induction => exact induction.trans rfl
  | case5 first value notBoolean present induction => exact induction.trans rfl
  | case6 first second notNumber notText notBoolean notBoolean' left present induction =>
      rw [Bool.and_eq_true, Bool.not_eq_true'] at left
      exact induction.trans (convertedEqual_toPrimitive_left left.1 left.2)
  | case7 first second notNumber notText notBoolean notBoolean' left right present induction =>
      rw [Bool.and_eq_true, Bool.not_eq_true'] at right
      exact induction.trans (convertedEqual_toPrimitive_right right.1 right.2)
  | case8 first second notNumber notText notBoolean notBoolean' left right present =>
      rw [convertedEqual, if_neg present, Value.withoutBoolean_of_ne notBoolean,
        Value.withoutBoolean_of_ne notBoolean']
      dsimp only
      rw [if_neg left, if_neg right, Value.primitiveEqual_of_ne notNumber notText]

theorem looseEqual_comm (heap : Heap) (first second : Value) :
    heap.looseEqual first second = heap.looseEqual second first := by
  rw [looseEqual_eq_convertedEqual, convertedEqual_comm, ← looseEqual_eq_convertedEqual]

theorem looseEqual_of_strictEqual (equal : first.strictEqual second = true) :
    heap.looseEqual first second = true := by
  rw [looseEqual_eq_convertedEqual, convertedEqual, Value.isNullish_eq_of_strictEqual equal]
  simp only [Value.isObjectLike_eq_of_strictEqual equal]
  cases nullish : second.isNullish <;> cases second.withoutBoolean.isObjectLike <;>
    simp [Value.primitiveEqual_of_strictEqual equal]

/-! ### The cases come to a result -/

/-- Equality with conversion, with no result if that takes more than so many rounds. -/
def looseEqualByCases (heap : Heap) : Nat → Value → Value → Option Bool
  | 0, _, _ => none
  | rounds + 1, first, second =>
    if first.isNullish || second.isNullish then some (first.isNullish && second.isNullish)
    else
      match first, second with
      | .number first, .string second => some (first == Number.ofText second)
      | .string first, .number second => some (Number.ofText first == second)
      | .boolean first, second => looseEqualByCases heap rounds (.ofBoolean first) second
      | first, .boolean second => looseEqualByCases heap rounds first (.ofBoolean second)
      | first, second =>
        if first.isObjectLike && !second.isObjectLike then
          looseEqualByCases heap rounds (heap.toPrimitive first) second
        else if !first.isObjectLike && second.isObjectLike then
          looseEqualByCases heap rounds first (heap.toPrimitive second)
        else some (first.strictEqual second)

theorem looseEqualByCases_eq {rounds : Nat}
    (enough : first.conversions + second.conversions < rounds) :
    heap.looseEqualByCases rounds first second = some (heap.looseEqual first second) := by
  induction rounds generalizing first second with
  | zero => exact absurd enough (Nat.not_lt_zero _)
  | succ rounds induction =>
      have again : ∀ {first' second' : Value},
          first'.conversions + second'.conversions < first.conversions + second.conversions →
          heap.looseEqualByCases rounds first' second' = some (heap.looseEqual first' second') :=
        fun fewer => induction (fewer.trans_le (Nat.le_of_lt_succ enough))
      fun_cases looseEqual heap first second with
      | case1 first second nullish => exact if_pos nullish
      | case2 first second present => exact if_neg present
      | case3 first second present => exact if_neg present
      | case4 second value present =>
          exact (if_neg present).trans (again (Nat.add_lt_add_right Nat.zero_lt_one _))
      | case5 first value notBoolean present =>
          have fewer : (Value.ofBoolean value).conversions < (Value.boolean value).conversions :=
            Nat.zero_lt_one
          simp [looseEqualByCases, *]
      | case6 first second notNumber notText notBoolean notBoolean' left present =>
          have fewer := @conversions_toPrimitive_lt heap _ (Bool.and_eq_true_iff.mp left).1
          simp [looseEqualByCases, *]
      | case7 first second notNumber notText notBoolean notBoolean' left right present =>
          have fewer := @conversions_toPrimitive_lt heap _ (Bool.and_eq_true_iff.mp right).2
          simp [looseEqualByCases, *]
      | case8 first second notNumber notText notBoolean notBoolean' left right present =>
          simp [looseEqualByCases, *]

/-! ## The order of values -/

theorem compare?_swap (heap : Heap) (first second : Value) :
    heap.compare? first second = (heap.compare? second first).map Ordering.swap := by
  have texts : ∀ text text' : String, Text.order text text' = (Text.order text' text).swap :=
    fun _ _ => Std.OrientedCmp.eq_swap
  unfold compare?
  cases heap.toPrimitive first <;> cases heap.toPrimitive second <;>
    first | exact congrArg some (texts _ _) | exact Number.compare?_swap _ _

/-- On every heap, equality with conversion comes to a result in three rounds. It does not
depend on the order of the two sides, and holds of all values that are equal without
conversion. The order of two values is the reverse of their order the other way around, and
so are the operators. Texts are in a total order, by their units, in which no two of them
have the same place. -/
theorem comparison_laws (heap : Heap) :
    (∀ first second,
      (∀ rounds ≥ 3,
        heap.looseEqualByCases rounds first second = some (heap.looseEqual first second)) ∧
      heap.looseEqual first second = heap.looseEqual second first ∧
      (first.strictEqual second = true → heap.looseEqual first second = true)) ∧
    (∀ first second,
      heap.compare? first second = (heap.compare? second first).map Ordering.swap ∧
      heap.binary .less first second = heap.binary .greater second first ∧
      heap.binary .lessEqual first second = heap.binary .greaterEqual second first) ∧
    (∀ first second : String,
      heap.compare? (.string first) (.string second) = some (Text.order first second) ∧
      Text.order first second = compare (Text.units first) (Text.units second) ∧
      (Text.order first second = .eq ↔ first = second)) ∧
    Std.TransCmp Text.order := by
  refine ⟨?_, ?_, ?_, inferInstance⟩
  · intro first second
    refine ⟨fun rounds enough => looseEqualByCases_eq ?_, heap.looseEqual_comm first second,
      looseEqual_of_strictEqual⟩
    exact (Nat.add_le_add first.conversions_le second.conversions_le).trans_lt enough
  · intro first second
    have reversed := heap.compare?_swap first second
    refine ⟨reversed, ?_, ?_⟩ <;> simp only [binary, reversed] <;>
      rcases heap.compare? second first with _ | _ | _ | _ <;> rfl
  · intro first second
    exact ⟨rfl, Text.compareUnits_eq _ _, Std.LawfulEqCmp.compare_eq_iff_eq⟩

end Heap

end ExprScript
