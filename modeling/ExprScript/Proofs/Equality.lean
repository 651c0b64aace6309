import ExprScript.Value.Equality
import Mathlib

/-! # Equality of structure

Structural equality takes every pair of containers that it is inside of to be
equal. It is shown to be the greatest relation that is consistent with the
contents of the heap: the pairs that a successful walk has entered are such a
relation, and no walk from a pair of that relation can fail.
-/

namespace ExprScript

/-! ## Equality of numbers -/

namespace Number

open Float.Model

def withoutZeroSign (number : Float) : UnpackedFloat :=
  match number.toModel.unpack with
  | .zero _ => .zero .positive
  | other => other

theorem beq_iff (first second : Float) : (first == second) = true ↔
    first.isNaN = false ∧ withoutZeroSign first = withoutZeroSign second := by
  change first.toModel.unpack.beq second.toModel.unpack = true ↔ _
  unfold withoutZeroSign Float.isNaN Float.Model.isNaN UnpackedFloat.beq
  generalize first.toModel.unpack = left
  generalize second.toModel.unpack = right
  cases left with
  | finite sign mantissa exponent positive =>
      cases right with
      | finite sign' mantissa' exponent' positive' =>
          have swapped : ∀ order : Ordering, order.swap = .eq ↔ order = .eq := by decide
          cases sign <;> cases sign' <;>
            simp [UnpackedFloat.compare, UnpackedFloat.isNaN, swapped, and_comm]
      | infinity sign' => cases sign' <;> simp [UnpackedFloat.compare]
      | zero sign' => cases sign <;> simp [UnpackedFloat.compare]
      | notANumber => simp [UnpackedFloat.compare]
  | infinity sign =>
      cases right with
      | infinity sign' =>
          cases sign <;> cases sign' <;> simp [UnpackedFloat.compare, UnpackedFloat.isNaN] <;> rfl
      | _ => cases sign <;> simp [UnpackedFloat.compare]
  | zero sign =>
      cases right with
      | infinity sign' => cases sign' <;> simp [UnpackedFloat.compare]
      | zero sign' => simp [UnpackedFloat.compare, UnpackedFloat.isNaN]
      | finite sign' => cases sign' <;> simp [UnpackedFloat.compare]
      | notANumber => simp [UnpackedFloat.compare]
  | notANumber => simp [UnpackedFloat.compare, UnpackedFloat.isNaN]

theorem isNaN_of_withoutZeroSign {first second : Float}
    (equal : withoutZeroSign first = withoutZeroSign second) : first.isNaN = second.isNaN := by
  have known : ∀ number : Float, number.isNaN = (withoutZeroSign number).isNaN := by
    intro number
    change number.toModel.unpack.isNaN = _
    unfold withoutZeroSign
    cases number.toModel.unpack <;> rfl
  rw [known first, known second, equal]

theorem beq_symm {first second : Float} (equal : (first == second) = true) :
    (second == first) = true := by
  rcases (beq_iff first second).mp equal with ⟨isNumber, same⟩
  exact (beq_iff second first).mpr ⟨isNaN_of_withoutZeroSign same ▸ isNumber, same.symm⟩

theorem beq_trans {first second third : Float} (equal : (first == second) = true)
    (equal' : (second == third) = true) : (first == third) = true := by
  rcases (beq_iff first second).mp equal with ⟨isNumber, same⟩
  rcases (beq_iff second third).mp equal' with ⟨-, same'⟩
  exact (beq_iff first third).mpr ⟨isNumber, same.trans same'⟩

theorem beq_self_iff (number : Float) : (number == number) = true ↔ number.isNaN = false := by
  simp

end Number

/-! ## Objects with the same keys -/

namespace Record

/-- Objects of one size have the same keys if the keys of the first one are keys
of the second one, since no key occurs twice. -/
theorem mem_keys_of_subset {first second : Record} (size : first.size = second.size)
    (subset : first.keys ⊆ second.keys) (key : String) :
    key ∈ first.keys ↔ key ∈ second.keys := by
  have shorter : second.keys.length ≤ first.keys.length := by
    simp only [keys, List.length_map]
    exact Nat.le_of_eq size.symm
  exact ((List.subperm_of_subset first.distinct subset).perm_of_length_le shorter).mem_iff

theorem size_eq_of_mem_keys {first second : Record}
    (same : ∀ key, key ∈ first.keys ↔ key ∈ second.keys) : first.size = second.size := by
  have length := ((List.perm_ext_iff_of_nodup first.distinct second.distinct).mpr same).length_eq
  simpa only [keys, List.length_map, size] using length

end Record

namespace Heap

/-! ## The greatest relation -/

inductive Matches (heap : Heap) (related : Value → Value → Prop) : Value → Value → Prop
  | undefined : Matches heap related .undefined .undefined
  | null : Matches heap related .null .null
  | boolean (value : Bool) : Matches heap related (.boolean value) (.boolean value)
  | number {first second : Float} (equal : (first == second) = true) :
      Matches heap related (.number first) (.number second)
  | string (value : String) : Matches heap related (.string value) (.string value)
  | function (ref : FunctionRef) : Matches heap related (.function ref) (.function ref)
  | regExp {first second : RegExpRef} (equal : heap.regExp first = heap.regExp second) :
      Matches heap related (.regExp first) (.regExp second)
  | sameArray (ref : ArrayRef) : Matches heap related (.array ref) (.array ref)
  | array {first second : ArrayRef}
      (length : (heap.array first).length = (heap.array second).length)
      (elements : ∀ index < (heap.array first).length,
        related ((heap.array first).get index) ((heap.array second).get index)) :
      Matches heap related (.array first) (.array second)
  | sameObject (ref : ObjectRef) : Matches heap related (.object ref) (.object ref)
  | object {first second : ObjectRef}
      (keys : ∀ key, key ∈ (heap.object first).keys ↔ key ∈ (heap.object second).keys)
      (values : ∀ key value other, (heap.object first).get? key = some value →
        (heap.object second).get? key = some other → related value other) :
      Matches heap related (.object first) (.object second)

variable {heap : Heap} {related : Value → Value → Prop} {first second third : Value}

namespace Matches

theorem mono {wider : Value → Value → Prop} (holds : heap.Matches related first second)
    (within : ∀ value other, related value other → wider value other) :
    heap.Matches wider first second := by
  cases holds with
  | undefined => exact .undefined
  | null => exact .null
  | boolean value => exact .boolean value
  | number equal => exact .number equal
  | string value => exact .string value
  | function ref => exact .function ref
  | regExp equal => exact .regExp equal
  | sameArray ref => exact .sameArray ref
  | array length elements =>
      exact .array length fun index inside => within _ _ (elements index inside)
  | sameObject ref => exact .sameObject ref
  | object keys values =>
      exact .object keys fun key value other found found' =>
        within _ _ (values key value other found found')

theorem symm (holds : heap.Matches related first second) :
    heap.Matches (fun value other => related other value) second first := by
  cases holds with
  | undefined => exact .undefined
  | null => exact .null
  | boolean value => exact .boolean value
  | number equal => exact .number (Number.beq_symm equal)
  | string value => exact .string value
  | function ref => exact .function ref
  | regExp equal => exact .regExp equal.symm
  | sameArray ref => exact .sameArray ref
  | array length elements =>
      exact .array length.symm fun index inside => elements index (length ▸ inside)
  | sameObject ref => exact .sameObject ref
  | object keys values =>
      exact .object (fun key => (keys key).symm) fun key value other found found' =>
        values key other value found' found

/-- Values in the middle may be left out. A value that is matched only with itself
is no such value, because its parts need not be related. -/
theorem trans (holds : heap.Matches related first second)
    (holds' : heap.Matches related second third) :
    heap.Matches (fun value other => related value other ∨
      ∃ middle, related value middle ∧ related middle other) first third := by
  cases holds with
  | sameArray ref => exact holds'.mono fun _ _ => .inl
  | sameObject ref => exact holds'.mono fun _ _ => .inl
  | undefined => cases holds'; exact .undefined
  | null => cases holds'; exact .null
  | boolean value => cases holds'; exact .boolean value
  | number equal =>
      cases holds' with
      | number equal' => exact .number (Number.beq_trans equal equal')
  | string value => cases holds'; exact .string value
  | function ref => cases holds'; exact .function ref
  | regExp equal =>
      cases holds' with
      | regExp equal' => exact .regExp (equal.trans equal')
  | array length elements =>
      cases holds' with
      | sameArray => exact .array length fun index inside => .inl (elements index inside)
      | array length' elements' =>
          exact .array (length.trans length') fun index inside =>
            .inr ⟨_, elements index inside, elements' index (length ▸ inside)⟩
  | @object _ middle keys values =>
      cases holds' with
      | sameObject =>
          exact .object keys fun key value other found found' =>
            .inl (values key value other found found')
      | object keys' values' =>
          refine .object (fun key => (keys key).trans (keys' key)) ?_
          intro key value other found found'
          have present : (heap.object middle).has key = true := by
            rw [← Record.mem_keys_iff, keys' key, Record.mem_keys_iff, Record.has, found']
            rfl
          rcases Option.isSome_iff_exists.mp present with ⟨between, found''⟩
          exact .inr ⟨between, values key value between found found'',
            values' key between other found'' found'⟩

end Matches

/-- One step of the relation, as a monotone operator. -/
def matching (heap : Heap) : (Value → Value → Prop) →o (Value → Value → Prop) where
  toFun := heap.Matches
  monotone' _ _ wider _ _ holds := holds.mono wider

/-- The greatest relation that relates two values only if they match. -/
def Alike (heap : Heap) : Value → Value → Prop := heap.matching.gfp

namespace Alike

theorem holds (alike : heap.Alike first second) : heap.Matches heap.Alike first second :=
  heap.matching.map_gfp.ge _ _ alike

theorem of_matching (consistent : ∀ value other, related value other →
    heap.Matches related value other) (holds : related first second) : heap.Alike first second :=
  heap.matching.le_gfp consistent _ _ holds

theorem symm (alike : heap.Alike first second) : heap.Alike second first := by
  apply @of_matching heap fun value other => heap.Alike other value
  · intro value other alike
    exact alike.holds.symm
  · exact alike

theorem trans (alike : heap.Alike first second) (alike' : heap.Alike second third) :
    heap.Alike first third := by
  apply @of_matching heap fun value other => heap.Alike value other ∨
    ∃ middle, heap.Alike value middle ∧ heap.Alike middle other
  · intro value other related
    rcases related with alike | ⟨middle, alike, alike'⟩
    · exact alike.holds.mono fun _ _ => .inl
    · exact alike.holds.trans alike'.holds
  · exact .inr ⟨second, alike, alike'⟩

theorem refl {value : Value}
    (isNumber : ∀ number, value = .number number → number.isNaN = false) :
    heap.Alike value value := by
  apply @of_matching heap fun first second => first = second ∧ first = value
  · intro first second same
    rcases same with ⟨rfl, rfl⟩
    cases first with
    | undefined => exact .undefined
    | null => exact .null
    | boolean value => exact .boolean value
    | number value => exact .number ((Number.beq_self_iff value).mpr (isNumber value rfl))
    | string value => exact .string value
    | array ref => exact .sameArray ref
    | object ref => exact .sameObject ref
    | function ref => exact .function ref
    | regExp ref => exact .regExp rfl
  · exact ⟨rfl, rfl⟩

end Alike

/-! ## The pairs of a walk -/

end Heap

def Container.value : Container → Value
  | .array ref => .array ref
  | .object ref => .object ref

def Assumed (assumed : List (Container × Container)) (value other : Value) : Prop :=
  ∃ pair ∈ assumed, (pair.1.value = value ∧ pair.2.value = other) ∨
    (pair.1.value = other ∧ pair.2.value = value)

theorem Assumed.symm {assumed : List (Container × Container)} {value other : Value}
    (holds : Assumed assumed value other) : Assumed assumed other value := by
  rcases holds with ⟨pair, member, equal⟩
  exact ⟨pair, member, equal.symm⟩

namespace Heap

variable {heap : Heap} {assumed : List (Container × Container)} {first second : Value}

def walking (heap : Heap) (assumed : List (Container × Container)) :
    (Value → Value → Prop) →o (Value → Value → Prop) where
  toFun related := heap.Matches fun value other => related value other ∨ Assumed assumed value other
  monotone' _ _ wider _ _ holds := holds.mono fun _ _ => Or.imp_left (wider _ _)

def Upheld (heap : Heap) (assumed : List (Container × Container)) (value other : Value) : Prop :=
  (heap.walking assumed).gfp value other ∨ Assumed assumed value other

namespace Upheld

theorem of_consistent {related : Value → Value → Prop}
    (consistent : ∀ value other, related value other →
      heap.Matches (fun value other => related value other ∨ Assumed assumed value other)
        value other)
    (holds : related first second) : heap.Upheld assumed first second :=
  .inl ((heap.walking assumed).le_gfp consistent _ _ holds)

theorem holds (upheld : (heap.walking assumed).gfp first second) :
    heap.Matches (heap.Upheld assumed) first second :=
  (heap.walking assumed).map_gfp.ge _ _ upheld

theorem of_matches (matched : heap.Matches (fun _ _ => False) first second) :
    heap.Upheld assumed first second := by
  apply @of_consistent heap assumed _ _ fun value other => heap.Matches (fun _ _ => False) value other
  · intro value other matched
    exact matched.mono fun _ _ => False.elim
  · exact matched

theorem symm (upheld : heap.Upheld assumed first second) : heap.Upheld assumed second first := by
  rcases upheld with upheld | known
  · apply @of_consistent heap assumed _ _ fun value other => (heap.walking assumed).gfp other value
    · intro value other upheld
      exact (holds upheld).symm.mono fun _ _ => Or.imp_right Assumed.symm
    · exact upheld
  · exact .inr known.symm

/-- A pair that matches as long as it is assumed need not be assumed. The relation
that shows it has the pair, in both orders, and all that the walk has met inside. -/
theorem enter {pair : Container × Container}
    (matched : heap.Matches (heap.Upheld (pair :: assumed)) pair.1.value pair.2.value) :
    heap.Upheld assumed pair.1.value pair.2.value := by
  let related := fun value other =>
    (heap.walking (pair :: assumed)).gfp value other ∨ Assumed [pair] value other
  have within : ∀ value other, heap.Upheld (pair :: assumed) value other →
      related value other ∨ Assumed assumed value other := by
    intro value other upheld
    rcases upheld with upheld | ⟨found, member, equal⟩
    · exact .inl (.inl upheld)
    · rcases List.mem_cons.mp member with rfl | member
      · exact .inl (.inr ⟨found, List.mem_singleton.mpr rfl, equal⟩)
      · exact .inr ⟨found, member, equal⟩
  apply @of_consistent heap assumed _ _ related
  · intro value other reason
    rcases reason with upheld | ⟨found, member, equal⟩
    · exact (holds upheld).mono within
    · cases List.mem_singleton.mp member
      rcases equal with ⟨rfl, rfl⟩ | ⟨rfl, rfl⟩
      · exact matched.mono within
      · exact matched.symm.mono fun value other upheld => within _ _ upheld.symm
  · exact .inr ⟨pair, List.mem_singleton.mpr rfl, .inl ⟨rfl, rfl⟩⟩

theorem alike (upheld : heap.Upheld [] first second) : heap.Alike first second := by
  apply @Alike.of_matching heap (heap.Upheld [])
  · intro value other upheld
    rcases upheld with upheld | ⟨pair, member, -⟩
    · exact holds upheld
    · cases member
  · exact upheld

end Upheld

/-! ## What a walk finds out -/

theorem mem_zip_toList {left right : ArrayStore} (length : left.length = right.length)
    {index : Nat} (inside : index < left.length) :
    (left.get index, right.get index) ∈ left.toList.zip right.toList := by
  apply List.mem_iff_getElem?.mpr
  refine ⟨index, ?_⟩
  simp [ArrayStore.toList, inside, length ▸ inside]

/-- The test of two arrays by their elements. -/
theorem elements_all_iff {left right : ArrayStore} {test : Value → Value → Bool} :
    (left.toList.length == right.toList.length &&
      (left.toList.zip right.toList).attach.all fun ⟨(a, b), _⟩ => test a b) = true ↔
    left.length = right.length ∧
      ∀ index < left.length, test (left.get index) (right.get index) = true := by
  have lengths : ∀ store : ArrayStore, store.toList.length = store.length := by
    intro store
    simp [ArrayStore.toList]
  simp only [Bool.and_eq_true, beq_iff_eq, lengths, List.all_eq_true, List.mem_attach,
    forall_const, Subtype.forall, Prod.forall]
  constructor
  · intro holds
    exact ⟨holds.1, fun index inside => holds.2 _ _ (mem_zip_toList holds.1 inside)⟩
  · intro holds
    refine ⟨holds.1, fun value other member => ?_⟩
    rcases List.mem_iff_getElem?.mp member with ⟨index, found⟩
    simp only [ArrayStore.toList, List.getElem?_zip_eq_some, List.getElem?_map,
      Option.map_eq_some_iff] at found
    rcases found with ⟨⟨place, isPlace, rfl⟩, place', isPlace', rfl⟩
    rcases List.getElem?_eq_some_iff.mp isPlace with ⟨inside, rfl⟩
    rcases List.getElem?_eq_some_iff.mp isPlace' with ⟨inside', rfl⟩
    simp only [List.length_range, List.getElem_range] at inside ⊢
    exact holds.2 index inside

/-- The test of two objects by their properties. -/
theorem entries_all_iff {left right : Record} {test : Value → Value → Bool} :
    (left.size == right.size && left.entries.attach.all fun ⟨(key, value), _⟩ =>
      match _found : right.get? key with
      | some other => test other value
      | none => false) = true ↔
    (∀ key, key ∈ left.keys ↔ key ∈ right.keys) ∧
      ∀ key value other, left.get? key = some value → right.get? key = some other →
        test other value = true := by
  simp only [Bool.and_eq_true, beq_iff_eq, List.all_eq_true, List.mem_attach,
    forall_const, Subtype.forall, Prod.forall, Record.mem_entries_iff]
  constructor
  · intro holds
    have found : ∀ key value, left.get? key = some value →
        ∃ other, right.get? key = some other ∧ test other value = true := by
      intro key value present
      have passed := holds.2 key value present
      split at passed
      · next other present' => exact ⟨other, present', passed⟩
      · cases passed
    constructor
    · apply Record.mem_keys_of_subset holds.1
      intro key member
      rcases Option.isSome_iff_exists.mp ((left.mem_keys_iff key).mp member) with ⟨value, present⟩
      rcases found key value present with ⟨other, present', -⟩
      rw [Record.mem_keys_iff, Record.has, present']
      rfl
    · intro key value other present present'
      rcases found key value present with ⟨other', same, passed⟩
      cases present'.symm.trans same
      exact passed
  · intro holds
    refine ⟨Record.size_eq_of_mem_keys holds.1, fun key value present => ?_⟩
    have member : key ∈ right.keys := by
      rw [← holds.1 key, Record.mem_keys_iff, Record.has, present]
      rfl
    split
    · next other present' => exact holds.2 key value other present present'
    · next absent =>
        rw [Record.mem_keys_iff, Record.has, absent] at member
        cases member

theorem matches_of_strictEqual {related : Value → Value → Prop}
    (equal : first.strictEqual second = true) : heap.Matches related first second := by
  unfold Value.strictEqual at equal
  split at equal
  · exact .undefined
  · exact .null
  · cases eq_of_beq equal
    exact .boolean _
  · exact .number equal
  · cases eq_of_beq equal
    exact .string _
  · cases eq_of_beq equal
    exact .sameArray _
  · cases eq_of_beq equal
    exact .sameObject _
  · cases eq_of_beq equal
    exact .function _
  · cases eq_of_beq equal
    exact .regExp rfl
  · cases equal

theorem upheld_of_equalWithin (equal : heap.equalWithin assumed first second = true) :
    heap.Upheld assumed first second := by
  fun_induction equalWithin heap assumed first second with
  | case1 assumed first second known =>
      rcases known with rfl | member
      · exact .of_matches (.sameArray first)
      · exact .inr ⟨_, member, .inl ⟨rfl, rfl⟩⟩
  | case2 assumed first second unknown left right induction =>
      rcases elements_all_iff.mp equal with ⟨length, elements⟩
      apply @Upheld.enter heap assumed (.array first, .array second)
      exact .array length fun index inside =>
        induction _ _ (mem_zip_toList length inside) (elements index inside)
  | case3 assumed first second known =>
      rcases known with rfl | member
      · exact .of_matches (.sameObject first)
      · exact .inr ⟨_, member, .inl ⟨rfl, rfl⟩⟩
  | case4 assumed first second unknown left right induction =>
      rcases entries_all_iff.mp equal with ⟨keys, values⟩
      apply @Upheld.enter heap assumed (.object first, .object second)
      refine .object keys fun key value other found found' => ?_
      -- The walk compares the parts of two objects in the other order.
      apply Upheld.symm
      exact induction key value ((Record.mem_entries_iff _ _ _).mpr found) other found'
        (values key value other found found')
  | case5 assumed first second => exact .of_matches (.regExp (eq_of_beq equal))
  | case6 assumed first second => exact .of_matches (matches_of_strictEqual equal)

theorem equalWithin_of_alike (alike : heap.Alike first second) :
    heap.equalWithin assumed first second = true := by
  fun_induction equalWithin heap assumed first second with
  | case1 => rfl
  | case2 assumed first second unknown left right induction =>
      apply elements_all_iff.mpr
      cases alike.holds with
      | sameArray => exact absurd (.inl rfl) unknown
      | array length elements =>
          exact ⟨length, fun index inside =>
            induction _ _ (mem_zip_toList length inside) (elements index inside)⟩
  | case3 => rfl
  | case4 assumed first second unknown left right induction =>
      apply entries_all_iff.mpr
      cases alike.holds with
      | sameObject => exact absurd (.inl rfl) unknown
      | object keys values =>
          exact ⟨keys, fun key value other found found' =>
            induction key value ((Record.mem_entries_iff _ _ _).mpr found) other found'
              (values key value other found found').symm⟩
  | case5 assumed first second =>
      cases alike.holds with
      | regExp equal => exact beq_iff_eq.mpr equal
  | case6 assumed first second notArrays notObjects notRegExps =>
      cases alike.holds with
      | undefined => rfl
      | null => rfl
      | boolean value => exact beq_self_eq_true value
      | number equal => exact equal
      | string value => exact beq_self_eq_true value
      | function ref => exact beq_self_eq_true ref
      | regExp => exact absurd rfl (notRegExps _ _ rfl)
      | sameArray => exact absurd rfl (notArrays _ _ rfl)
      | array => exact absurd rfl (notArrays _ _ rfl)
      | sameObject => exact absurd rfl (notObjects _ _ rfl)
      | object => exact absurd rfl (notObjects _ _ rfl)

theorem structuralEqual_iff_alike (heap : Heap) (first second : Value) :
    heap.structuralEqual first second = true ↔ heap.Alike first second :=
  ⟨fun equal => (upheld_of_equalWithin equal).alike, equalWithin_of_alike⟩

/-- On every heap, cyclic or not, equality of structure is the greatest relation
between values that match. So it is symmetric and transitive, and of all values
only the number that is not a number differs from itself. -/
theorem structuralEqual_greatest (heap : Heap) :
    (∀ first second, heap.structuralEqual first second = true ↔
      heap.matching.gfp first second) ∧
    (∀ first second, heap.structuralEqual first second = heap.structuralEqual second first) ∧
    (∀ first second third, heap.structuralEqual first second = true →
      heap.structuralEqual second third = true → heap.structuralEqual first third = true) ∧
    ∀ value, (∀ number, value = .number number → number.isNaN = false) →
      heap.structuralEqual value value = true := by
  have alike := heap.structuralEqual_iff_alike
  refine ⟨alike, ?_, ?_, ?_⟩
  · intro first second
    rw [Bool.eq_iff_iff, alike, alike]
    exact ⟨Alike.symm, Alike.symm⟩
  · intro first second third equal equal'
    rw [alike] at equal equal' ⊢
    exact equal.trans equal'
  · intro value isNumber
    rw [alike]
    exact Alike.refl isNumber

end Heap

end ExprScript
