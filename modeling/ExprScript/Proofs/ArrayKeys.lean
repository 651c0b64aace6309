import ExprScript.Proofs.ArrayTruncation
import ExprScript.Proofs.Number.Notation
import ExprScript.Proofs.PropertyViews

/-! # Keys of an array

A key is an index if it is written exactly as the index is, so that no index has two keys. What is
written under a key goes to one of three storages: it becomes the length, an element or a named
property. The storages never have something under the same key, as long as no name is given that
is an index or the length.
-/

namespace ExprScript

/-! ## Canonical indices -/

theorem toDigits_digitsToNat {first : Char} {rest : List Char}
    (all : ∀ c ∈ first :: rest, c.isDigit = true) (canonical : first = '0' → rest = []) :
    Nat.toDigits 10 (Number.digitsToNat 10 (first :: rest)) = first :: rest := by
  by_cases isZero : first = '0'
  · rw [isZero, canonical isZero]
    rfl
  · have significant : Number.Significant (first :: rest) := {
      notEmpty := List.cons_ne_nil _ _
      all := all
      leading := fun same => isZero (Option.some.inj same) }
    exact significant.toDigits_eq.2

theorem arrayIndex?_eq_some_iff (key : String) (index : Nat) :
    arrayIndex? key = some index ↔ key = toString index ∧ index < 2 ^ 32 - 1 := by
  constructor
  · intro found
    unfold arrayIndex? at found
    split at found
    · cases found
    · next first rest written =>
        simp only [Option.ite_none_left_eq_some, Option.ite_none_right_eq_some] at found
        rcases found with ⟨canonical, digits, small, equal⟩
        cases equal
        have all : ∀ c ∈ first :: rest, c.isDigit = true := by simpa using digits
        have same := toDigits_digitsToNat all (by simpa using canonical)
        refine ⟨String.toList_injective ?_, small⟩
        rw [Nat.toString_eq_repr, Nat.toList_repr, same, written]
  · rintro ⟨rfl, small⟩
    exact arrayIndex?_toString small

namespace ArrayStore

variable {store after : ArrayStore} {index : Nat} {value : Value}

/-! ## What operations leave alone -/

theorem named_set (written : store.set index value = .ok after) : after.named = store.named := by
  unfold set at written
  split at written
  · cases written
  · split at written
    · cases written
      rfl
    · split at written <;> cases written <;> rfl

theorem named_setLength {length : Nat} (changed : store.setLength length = .ok after) :
    after.named = store.named := by
  unfold setLength at changed
  split at changed
  · cases changed
  · cases changed
    rfl

theorem hasIndex_set (layout : Layout store) (written : store.set index value = .ok after) :
    after.hasIndex index = true := by
  rw [hasIndex_eq_isSome]
  unfold set at written
  split at written
  · cases written
  · split at written
    · next inside =>
        cases written
        simp [get?, inside]
    · next beyond =>
        split at written
        · cases written
          rw [get?_absorb _ _ _ layout.increasing, getElem?_extend _ _ _ _ (by omega),
            if_neg beyond, if_neg (Nat.lt_irrefl _), if_pos rfl, Option.isSome_or]
          exact Bool.or_true _
        · cases written
          simp [get?, beyond, sparseGet?_sparseInsert]

theorem getNamed?_setNamed (store : ArrayStore) (key : String) (value : Value) (name : String) :
    (store.setNamed key value).getNamed? name =
      if name = key then some value else store.getNamed? name := by
  unfold setNamed getNamed?
  induction store.named with
  | nil =>
      by_cases same : name = key
      · simp [insertNamed, same]
      · simp [insertNamed, List.lookup_cons, same, beq_eq_false_iff_ne.mpr same]
  | cons entry others induction =>
      rcases entry with ⟨first, old⟩
      simp only at induction ⊢
      unfold insertNamed
      by_cases found : first = key
      · subst found
        rw [if_pos rfl, List.lookup_cons, List.lookup_cons]
        by_cases same : name = first
        · simp [same]
        · simp [same, beq_eq_false_iff_ne.mpr same]
      · rw [if_neg found, List.lookup_cons, List.lookup_cons, induction]
        by_cases same : name = first
        · subst same
          simp [found]
        · rw [beq_eq_false_iff_ne.mpr same]

/-! ## Storages -/

inductive Storage where
  | length
  | elements
  | named
deriving DecidableEq

/-- The storage that a key belongs to. -/
def storageOf (key : String) : Storage :=
  if key = "length" then .length else if (arrayIndex? key).isSome then .elements else .named

theorem storageOf_toString (small : index < 2 ^ 32 - 1) :
    storageOf (toString index) = .elements := by
  rw [storageOf, if_neg (toString_ne_length index), arrayIndex?_toString small]
  rfl

theorem storageOf_name {key : String} (notLength : key ≠ "length")
    (notIndex : arrayIndex? key = none) : storageOf key = .named := by
  rw [storageOf, if_neg notLength, notIndex]
  rfl

/-- The storage has something under the key. -/
def Holds (store : ArrayStore) (key : String) : Storage → Prop
  | .length => key = "length"
  | .elements => ∃ index < 2 ^ 32 - 1, key = toString index ∧ store.hasIndex index = true
  | .named => store.hasNamed key = true

def Operation.SparesKeys : Operation → Prop
  | .setNamed key _ => key ≠ "length" ∧ arrayIndex? key = none
  | .set .. | .push _ | .setLength _ => True

/-- The arrays that are built from elements without giving a name to an index or to the length. -/
inductive Keyed : ArrayStore → Prop where
  | ofList (elements : List Value) : Keyed (ofList elements)
  | apply {store after : ArrayStore} (operation : Operation) : Keyed store →
      operation.SparesKeys → operation.apply store = .ok after → Keyed after

theorem Operation.named_apply {operation : Operation}
    (applied : operation.apply store = .ok after) :
    after.named = store.named ∨
      ∃ key value, operation = .setNamed key value ∧ after = store.setNamed key value := by
  cases operation with
  | set index value => exact .inl (named_set applied)
  | push value =>
      rcases pushed : store.push value with error | ⟨extended, length⟩
      · rw [Operation.apply, pushed] at applied
        cases applied
      · rw [Operation.apply, pushed] at applied
        cases applied
        exact .inl (named_set (set_of_push pushed).1)
  | setLength length => exact .inl (named_setLength applied)
  | setNamed key value =>
      cases applied
      exact .inr ⟨key, value, rfl, rfl⟩

namespace Keyed

theorem reachable (keyed : store.Keyed) : store.Reachable := by
  induction keyed with
  | ofList elements => exact .ofList elements
  | apply operation _ _ applied induction => exact induction.apply applied

theorem spares (keyed : store.Keyed) {key : String} (named : store.hasNamed key = true) :
    key ≠ "length" ∧ arrayIndex? key = none := by
  induction keyed with
  | ofList elements => cases named
  | @apply store after operation _ spares applied induction =>
      rcases Operation.named_apply applied with same | ⟨name, value, rfl, rfl⟩
      · rw [hasNamed, getNamed?, same] at named
        exact induction named
      · rw [hasNamed, getNamed?_setNamed] at named
        split at named
        · next same => exact same ▸ spares
        · exact induction named

theorem eq_storageOf (keyed : store.Keyed) {key : String} {storage : Storage}
    (holds : store.Holds key storage) : storage = storageOf key := by
  cases storage with
  | length =>
      rw [show key = "length" from holds]
      rfl
  | elements =>
      rcases holds with ⟨index, small, rfl, -⟩
      exact (storageOf_toString small).symm
  | named =>
      rcases keyed.spares holds with ⟨notLength, notIndex⟩
      exact (storageOf_name notLength notIndex).symm

end Keyed

end ArrayStore

/-! ## Writes under keys -/

namespace Heap

open ArrayStore

variable {heap : Heap} {before store : ArrayStore} {key : String} {value : Value}

/-- What a write under a key does to an array, by the storage that it goes to. The other storages
stay as they are, but for the length, which grows with the elements, and for the elements beyond a
new length. -/
inductive Receives (heap : Heap) (before after : ArrayStore) (key : String) (value : Value) :
    Storage → Prop where
  | length (isLength : key = "length")
      (denoted : arrayLength? (heap.toNumber value) = some after.length)
      (elements : ∀ index,
        after.get? index = if index < after.length then before.get? index else none)
      (named : after.named = before.named) : Receives heap before after key value .length
  | elements {index : Nat} (isIndex : key = toString index) (small : index < 2 ^ 32 - 1)
      (stored : after.hasIndex index = true)
      (read : before.losesWrite index = false → after.get index = value)
      (others : ∀ other, other ≠ index → after.get other = before.get other)
      (length : after.length = max before.length (index + 1))
      (named : after.named = before.named) : Receives heap before after key value .elements
  | named (notLength : key ≠ "length") (notIndex : arrayIndex? key = none)
      (read : after.getNamed? key = some value)
      (others : ∀ other, other ≠ key → after.getNamed? other = before.getNamed? other)
      (elements : ∀ index, after.get? index = before.get? index)
      (length : after.length = before.length) : Receives heap before after key value .named

namespace Receives

variable {after : ArrayStore} {storage : Storage}

theorem eq_storageOf (receives : heap.Receives before after key value storage) :
    storage = storageOf key := by
  cases receives with
  | length isLength =>
      rw [isLength]
      rfl
  | elements isIndex small => exact isIndex ▸ (storageOf_toString small).symm
  | named notLength notIndex => exact (storageOf_name notLength notIndex).symm

theorem holds (receives : heap.Receives before after key value storage) :
    after.Holds key storage := by
  cases receives with
  | length isLength => exact isLength
  | elements isIndex small stored => exact ⟨_, small, isIndex, stored⟩
  | named _ _ read => exact (congrArg Option.isSome read).trans rfl

end Receives

/-- A write sorts its key to one operation on the array, and to one storage. -/
theorem setArrayProperty_sorts (layout : before.Layout)
    (written : heap.setArrayProperty before key value = .ok store) :
    (∃ operation : ArrayStore.Operation,
      operation.SparesKeys ∧ operation.apply before = .ok store) ∧
      ∃ storage, heap.Receives before store key value storage := by
  unfold setArrayProperty at written
  split at written
  · next isLength =>
      split at written
      · next length denoted =>
          have same := length_setLength written
          refine ⟨⟨.setLength length, trivial, written⟩, .length,
            .length (beq_iff_eq.mp isLength) (same ▸ denoted) (fun index => ?_)
              (named_setLength written)⟩
          rw [same]
          exact get?_setLength written index
      · cases written
  · next notLength =>
      split at written
      · next index isIndex =>
          have canonical := (arrayIndex?_eq_some_iff key index).mp isIndex
          refine ⟨⟨.set index value, trivial, written⟩, .elements,
            .elements canonical.1 canonical.2 (hasIndex_set layout written) (fun kept => ?_)
              (fun other different => layout.get_set written different) (length_set written)
              (named_set written)⟩
          have read := get?_set layout written index
          rwa [if_pos ⟨rfl, kept⟩] at read
      · next notIndex =>
          have spares : key ≠ "length" := fun isLength => notLength (beq_iff_eq.mpr isLength)
          cases written
          refine ⟨⟨.setNamed key value, ⟨spares, notIndex⟩, rfl⟩, .named,
            .named spares notIndex ?_ (fun other different => ?_) (fun _ => rfl) rfl⟩
          · rw [getNamed?_setNamed, if_pos rfl]
          · rw [getNamed?_setNamed, if_neg different]

theorem setProperty_array {after : Heap} {ref : ArrayRef}
    (run : heap.setProperty (.array ref) key value = .ok after) :
    ∃ store, heap.setArrayProperty (heap.array ref) key value = .ok store ∧
      after = heap.setArray ref store := by
  simp only [setProperty, bind, Except.bind] at run
  split at run
  · cases run
  · next store written =>
      cases run
      exact ⟨store, written, rfl⟩

theorem keyed_setProperty {after : Heap} {object : Value}
    (keyed : ∀ ref, (heap.array ref).Keyed)
    (run : heap.setProperty object key value = .ok after) (ref : ArrayRef) :
    (after.array ref).Keyed := by
  cases object with
  | undefined | null => cases run
  | array target =>
      rcases setProperty_array run with ⟨store, written, rfl⟩
      rw [array_setArray]
      split
      · have layout := (keyed target).reachable.layout
        rcases (setArrayProperty_sorts layout written).1 with ⟨operation, spares, applied⟩
        exact (keyed target).apply operation spares applied
      · exact keyed ref
  | _ =>
      cases run
      exact keyed ref

theorem hasProperty_array_iff (heap : Heap) (ref : ArrayRef) (key : String) :
    heap.hasProperty (.array ref) key = .ok true ↔
      ∃ storage, (heap.array ref).Holds key storage := by
  have isElement : (arrayIndex? key).any (heap.array ref).hasIndex = true ↔
      (heap.array ref).Holds key .elements := by
    simp only [Option.any_eq_true, arrayIndex?_eq_some_iff]
    exact ⟨fun ⟨index, ⟨isIndex, small⟩, stored⟩ => ⟨index, small, isIndex, stored⟩,
      fun ⟨index, small, isIndex, stored⟩ => ⟨index, ⟨isIndex, small⟩, stored⟩⟩
  simp only [hasProperty, Except.ok.injEq, Bool.or_eq_true, beq_iff_eq, isElement]
  constructor
  · rintro ((isLength | isElement) | isNamed)
    · exact ⟨.length, isLength⟩
    · exact ⟨.elements, isElement⟩
    · exact ⟨.named, isNamed⟩
  · rintro ⟨_ | _ | _, holds⟩
    · exact .inl (.inl holds)
    · exact .inl (.inr holds)
    · exact .inr holds

/-- A key is an index exactly if it is the decimal notation of a number below the greatest word of
32 bits, so that no index has two keys. A write to an array stores its key in exactly one of the
length, the elements and the named properties. Unless a name is given otherwise that is an index or
the length, no two of these ever have something under the same key. An array has a property exactly
if one of them has. -/
theorem array_keys_apart :
    (∀ key index, arrayIndex? key = some index ↔ key = toString index ∧ index < 2 ^ 32 - 1) ∧
    (∀ first second index, arrayIndex? first = some index → arrayIndex? second = some index →
      first = second) ∧
    (∀ index < 2 ^ 32 - 1, arrayIndex? (toString index) = some index) ∧
    (∀ (heap after : Heap) (ref : ArrayRef) (key : String) (value : Value),
      (heap.array ref).Reachable → ref.index < heap.arrays.size →
      heap.setProperty (.array ref) key value = .ok after → ∀ storage,
        heap.Receives (heap.array ref) (after.array ref) key value storage ↔
          storage = storageOf key) ∧
    (∀ (heap : Heap) (ref : ArrayRef) (key : String),
      heap.hasProperty (.array ref) key = .ok true ↔
        ∃ storage, (heap.array ref).Holds key storage) ∧
    ∀ heap : Heap, (∀ ref, (heap.array ref).Keyed) →
      (∀ ref key storage, (heap.array ref).Holds key storage → storage = storageOf key) ∧
      ∀ object key value after, heap.setProperty object key value = .ok after →
        (∀ ref, (after.array ref).Keyed) ∧
        ∀ ref : ArrayRef, object = .array ref → ref.index < heap.arrays.size → ∀ storage,
          (after.array ref).Holds key storage ↔ storage = storageOf key := by
  have receives : ∀ (heap after : Heap) (ref : ArrayRef) (key : String) (value : Value),
      (heap.array ref).Reachable → ref.index < heap.arrays.size →
      heap.setProperty (.array ref) key value = .ok after →
      heap.Receives (heap.array ref) (after.array ref) key value (storageOf key) := by
    intro heap after ref key value reachable inside run
    rcases setProperty_array run with ⟨store, written, rfl⟩
    rcases (setArrayProperty_sorts reachable.layout written).2 with ⟨storage, receives⟩
    rw [array_setArray, if_pos ⟨rfl, inside⟩]
    exact receives.eq_storageOf ▸ receives
  refine ⟨arrayIndex?_eq_some_iff, fun first second index isFirst isSecond => ?_,
    fun index small => arrayIndex?_toString small, ?_, hasProperty_array_iff, ?_⟩
  · have first := (arrayIndex?_eq_some_iff _ _).mp isFirst
    exact first.1.trans ((arrayIndex?_eq_some_iff _ _).mp isSecond).1.symm
  · intro heap after ref key value reachable inside run storage
    refine ⟨fun receives => receives.eq_storageOf, ?_⟩
    rintro rfl
    exact receives heap after ref key value reachable inside run
  · intro heap keyed
    refine ⟨fun ref key storage holds => (keyed ref).eq_storageOf holds, ?_⟩
    intro object key value after run
    have keyedAfter := keyed_setProperty keyed run
    refine ⟨keyedAfter, ?_⟩
    rintro ref rfl inside storage
    refine ⟨(keyedAfter ref).eq_storageOf, ?_⟩
    rintro rfl
    exact (receives heap after ref key value (keyed ref).reachable inside run).holds

/-- The greatest word of 32 bits is no index but a name, also of an array that has elements far
from each other and another name. -/
theorem array_keys_apart_greatest :
    let heap : Heap := { arrays := #[stranded.setNamed "raw" .null] }
    arrayIndex? "4294967294" = some 4294967294 ∧ (∀ ref, (heap.array ref).Keyed) ∧
      ∃ after, heap.setProperty (.array ⟨0⟩) "4294967295" (.boolean true) = .ok after ∧
        (∀ storage, (after.array ⟨0⟩).Holds "4294967295" storage ↔ storage = .named) ∧
        (after.array ⟨0⟩).getNamed? "4294967295" = some (.boolean true) := by
  intro heap
  rcases array_keys_apart with ⟨-, -, written, stores, -, apart⟩
  have keyed : ∀ ref, (heap.array ref).Keyed := by
    have far : Keyed { sparse := [(1025, .null)], length := 1026 } :=
      .apply (.set 1025 .null) (.ofList []) trivial rfl
    have both : stranded.Keyed := .apply (.set 0 .null) far trivial rfl
    rintro ⟨_ | index⟩
    · exact .apply (.setNamed "raw" .null) both ⟨by decide, by decide⟩ rfl
    · exact .ofList []
  have notIndex : arrayIndex? "4294967295" = none := by decide
  have isNamed : storageOf "4294967295" = .named := storageOf_name (by decide) notIndex
  have run : heap.setProperty (.array ⟨0⟩) "4294967295" (.boolean true) =
      .ok (heap.setArray ⟨0⟩ ((heap.array ⟨0⟩).setNamed "4294967295" (.boolean true))) := by
    simp only [setProperty, setArrayProperty, notIndex]
    rfl
  have holds := ((apart heap keyed).2 _ _ _ _ run).2 ⟨0⟩ rfl (by decide)
  have receives :=
    (stores heap _ ⟨0⟩ _ _ (keyed ⟨0⟩).reachable (by decide) run .named).mpr isNamed.symm
  refine ⟨written 4294967294 (by decide), keyed, _, run, isNamed ▸ holds, ?_⟩
  cases receives with
  | named _ _ read => exact read

end Heap

end ExprScript
