import ExprScript.Eval.Operator
import ExprScript.Value.Scope
import Mathlib

/-! # How the heap develops

A value leads to the values that are stored in it, and a function to the frames
of its scope. A value is trusted if it leads to good functions only. Evaluation
changes the heap in few ways, which `Step` lists: new places are taken, and
elements, lengths and properties are written. None of them makes a trusted value
lead to a function that is not good.
-/

namespace ExprScript

/-! ## What is stored -/

def ArrayStore.Stores (store : ArrayStore) (value : Value) : Prop :=
  value ∈ store.dense ∨ (∃ index, (index, value) ∈ store.sparse) ∨
    ∃ key, (key, value) ∈ store.named

def Record.Stores (record : Record) (value : Value) : Prop :=
  ∃ key, (key, value) ∈ record.entries

namespace ArrayStore

variable {store after : ArrayStore} {value part : Value}

theorem mem_of_sparseGet? {index : Nat} {entries : List (Nat × Value)}
    (found : sparseGet? index entries = some value) : (index, value) ∈ entries := by
  induction entries with
  | nil => cases found
  | cons entry entries induction =>
      unfold sparseGet? at found
      split at found
      · next same =>
          cases found
          rw [← same]
          exact List.mem_cons_self
      · exact List.mem_cons_of_mem _ (induction found)

theorem stores_of_get? {index : Nat} (found : store.get? index = some value) :
    store.Stores value := by
  unfold get? at found
  split at found
  · exact .inl (Array.mem_of_getElem? found)
  · exact .inr (.inl ⟨index, mem_of_sparseGet? found⟩)

theorem get_cases (store : ArrayStore) (index : Nat) :
    store.get index = .undefined ∨ store.Stores (store.get index) := by
  unfold get
  cases found : store.get? index with
  | none => exact .inl rfl
  | some value => exact .inr (stores_of_get? found)

theorem stores_of_mem_entries {index : Nat} (member : (index, value) ∈ store.entries) :
    store.Stores value := by
  rcases List.mem_append.mp member with near | far
  · rcases List.mem_map.mp near with ⟨⟨found, place⟩, inside, equal⟩
    cases equal
    rw [(List.mem_zipIdx' inside).2]
    exact .inl (Array.mem_toList_iff.mp (List.getElem_mem _))
  · exact .inr (.inl ⟨index, far⟩)

theorem stores_of_getNamed? {key : String} (found : store.getNamed? key = some value) :
    store.Stores value :=
  .inr (.inr ⟨key, (List.lookup_eq_some_iff.mp found).elim fun _ rest => by
    rcases rest with ⟨_, equal, -⟩
    rw [equal]
    exact List.mem_append_right _ List.mem_cons_self⟩)

theorem stores_absorb {dense : Array Value} {entries : List (Nat × Value)}
    (member : part ∈ (absorb dense entries).1 ∨ ∃ index, (index, part) ∈ (absorb dense entries).2) :
    part ∈ dense ∨ ∃ index, (index, part) ∈ entries := by
  induction entries generalizing dense with
  | nil => exact member
  | cons entry entries induction =>
      unfold absorb at member
      split at member
      · rcases induction member with inside | ⟨index, inside⟩
        · rcases Array.mem_or_eq_of_mem_setIfInBounds inside with old | rfl
          · exact .inl old
          · exact .inr ⟨_, List.mem_cons_self⟩
        · exact .inr ⟨index, List.mem_cons_of_mem _ inside⟩
      · split at member
        · rcases induction member with inside | ⟨index, inside⟩
          · rcases Array.mem_push.mp inside with old | rfl
            · exact .inl old
            · exact .inr ⟨_, List.mem_cons_self⟩
          · exact .inr ⟨index, List.mem_cons_of_mem _ inside⟩
        · exact member

theorem mem_of_mem_extend {dense : Array Value} {index : Nat}
    (member : part ∈ extend dense index value) :
    part ∈ dense ∨ part = .undefined ∨ part = value := by
  unfold extend at member
  rcases Array.mem_push.mp member with inside | rfl
  · rcases Array.mem_append.mp inside with old | filled
    · exact .inl old
    · exact .inr (.inl (Array.eq_of_mem_replicate filled))
  · exact .inr (.inr rfl)

theorem mem_of_mem_sparseInsert {index place : Nat} {entries : List (Nat × Value)}
    (member : (place, part) ∈ sparseInsert index value entries) :
    (place, part) ∈ entries ∨ part = value := by
  induction entries with
  | nil =>
      cases List.mem_singleton.mp member
      exact .inr rfl
  | cons entry entries induction =>
      unfold sparseInsert at member
      split at member
      · rcases List.mem_cons.mp member with equal | inside
        · exact .inl (equal ▸ List.mem_cons_self)
        · exact (induction inside).imp_left (List.mem_cons_of_mem _)
      · split at member
        · rcases List.mem_cons.mp member with equal | inside
          · cases equal
            exact .inr rfl
          · exact .inl (List.mem_cons_of_mem _ inside)
        · rcases List.mem_cons.mp member with equal | inside
          · cases equal
            exact .inr rfl
          · exact .inl inside

theorem stores_set {index : Nat} (run : store.set index value = .ok after)
    (stores : after.Stores part) : store.Stores part ∨ part = .undefined ∨ part = value := by
  unfold set at run
  split at run
  · cases run
  · dsimp only at run
    split at run
    · cases run
      rcases stores with inside | others
      · rcases Array.mem_or_eq_of_mem_setIfInBounds inside with old | rfl
        · exact .inl (.inl old)
        · exact .inr (.inr rfl)
      · exact .inl (.inr others)
    · split at run
      · cases run
        rcases stores with inside | far | named
        · rcases stores_absorb (.inl inside) with old | far
          · exact (mem_of_mem_extend old).imp_left .inl
          · exact .inl (.inr (.inl far))
        · rcases stores_absorb (.inr far) with old | far
          · exact (mem_of_mem_extend old).imp_left .inl
          · exact .inl (.inr (.inl far))
        · exact .inl (.inr (.inr named))
      · cases run
        rcases stores with inside | ⟨place, far⟩ | named
        · exact .inl (.inl inside)
        · rcases mem_of_mem_sparseInsert far with old | rfl
          · exact .inl (.inr (.inl ⟨place, old⟩))
          · exact .inr (.inr rfl)
        · exact .inl (.inr (.inr named))

theorem stores_setLength {length : Nat} (run : store.setLength length = .ok after)
    (stores : after.Stores part) : store.Stores part := by
  unfold setLength at run
  split at run
  · cases run
  · cases run
    rcases stores with inside | ⟨index, far⟩ | named
    · rw [← Array.mem_toList_iff, Array.take, Array.toList_extract] at inside
      exact .inl (Array.mem_toList_iff.mp (List.mem_of_mem_drop (List.mem_of_mem_take inside)))
    · exact .inr (.inl ⟨index, (List.mem_filter.mp far).1⟩)
    · exact .inr (.inr named)

theorem mem_of_mem_insertNamed {key name : String} {entries : List (String × Value)}
    (member : (name, part) ∈ insertNamed key value entries) :
    (name, part) ∈ entries ∨ part = value := by
  induction entries with
  | nil =>
      cases List.mem_singleton.mp member
      exact .inr rfl
  | cons entry entries induction =>
      unfold insertNamed at member
      split at member
      · rcases List.mem_cons.mp member with equal | inside
        · cases equal
          exact .inr rfl
        · exact .inl (List.mem_cons_of_mem _ inside)
      · rcases List.mem_cons.mp member with equal | inside
        · exact .inl (equal ▸ List.mem_cons_self)
        · exact (induction inside).imp_left (List.mem_cons_of_mem _)

theorem mem_of_stores_ofList {elements : List Value} (stores : (ofList elements).Stores value) :
    value ∈ elements := by
  rcases stores with inside | ⟨_, far⟩ | ⟨_, named⟩
  · exact List.mem_toArray.mp inside
  · cases far
  · cases named

theorem stores_setNamed {key : String} (stores : (store.setNamed key value).Stores part) :
    store.Stores part ∨ part = value := by
  rcases stores with inside | far | ⟨name, named⟩
  · exact .inl (.inl inside)
  · exact .inl (.inr (.inl far))
  · exact (mem_of_mem_insertNamed named).imp_left fun old => .inr (.inr ⟨name, old⟩)

/-! ### Lengths -/

def IsWhole (store : ArrayStore) : Prop := store.sparse = [] ∧ store.length = store.dense.size

/-- A change lets no array grow beyond the largest length. One that was longer
before may stay so. -/
def Bounds (before after : ArrayStore) : Prop :=
  after.length ≤ maxLength ∨ after.length ≤ before.length ∧ (before.IsWhole → after.IsWhole)

theorem isWhole_ofList (elements : List Value) : (ofList elements).IsWhole := ⟨rfl, rfl⟩

theorem bounds_set {index : Nat} (run : store.set index value = .ok after) :
    store.Bounds after := by
  unfold set at run
  split at run
  · cases run
  · next small =>
      by_cases short : store.length ≤ maxLength
      · have shortAfter : after.length = max store.length (index + 1) := by
          dsimp only at run
          split at run
          · cases run; rfl
          · split at run <;> cases run <;> rfl
        exact .inl (by omega)
      · have same : max store.length (index + 1) = store.length := by omega
        -- A longer array that is whole has an element at the index already.
        dsimp only at run
        rw [same] at run
        split at run
        · cases run
          refine .inr ⟨le_rfl, fun isWhole => ⟨isWhole.1, ?_⟩⟩
          exact isWhole.2.trans Array.size_setIfInBounds.symm
        · have notWhole : ¬ store.IsWhole := by
            intro isWhole
            have full := isWhole.2
            omega
          split at run <;> cases run <;> exact .inr ⟨le_rfl, fun isWhole => (notWhole isWhole).elim⟩

theorem bounds_setLength {length : Nat} (run : store.setLength length = .ok after) :
    store.Bounds after := by
  unfold setLength at run
  split at run
  · cases run
  · next small =>
      cases run
      exact .inl (Nat.not_lt.mp small)

theorem bounds_setNamed (key : String) : store.Bounds (store.setNamed key value) :=
  .inr ⟨le_rfl, id⟩

end ArrayStore

namespace Record

variable {record : Record} {key : String} {value part : Value}

theorem stores_of_get? (found : record.get? key = some value) : record.Stores value :=
  ⟨key, (record.mem_entries_iff key value).mpr found⟩

theorem get_cases (record : Record) (key : String) :
    record.get key = .undefined ∨ record.Stores (record.get key) := by
  unfold get
  cases found : record.get? key with
  | none => exact .inl rfl
  | some value => exact .inr (stores_of_get? found)

theorem mem_of_mem_replaceEntry {name : String} {entries : List (String × Value)}
    (member : (name, part) ∈ replaceEntry key value entries) :
    (name, part) ∈ entries ∨ part = value := by
  induction entries with
  | nil => cases member
  | cons entry entries induction =>
      unfold replaceEntry at member
      split at member
      · rcases List.mem_cons.mp member with equal | inside
        · cases equal
          exact .inr rfl
        · exact .inl (List.mem_cons_of_mem _ inside)
      · rcases List.mem_cons.mp member with equal | inside
        · exact .inl (equal ▸ List.mem_cons_self)
        · exact (induction inside).imp_left (List.mem_cons_of_mem _)

theorem stores_set (stores : (record.set key value).Stores part) :
    record.Stores part ∨ part = value := by
  rcases stores with ⟨name, member⟩
  unfold set at member
  split at member
  · exact (mem_of_mem_replaceEntry member).imp_left fun old => ⟨name, old⟩
  · rcases List.mem_append.mp member with old | new
    · exact .inl ⟨name, old⟩
    · cases List.mem_singleton.mp new
      exact .inr rfl

theorem stores_setAll {entries : List (String × Value)}
    (stores : (record.setAll entries).Stores part) :
    record.Stores part ∨ ∃ name, (name, part) ∈ entries := by
  induction entries generalizing record with
  | nil => exact .inl stores
  | cons entry entries induction =>
      rcases induction stores with first | ⟨name, later⟩
      · rcases stores_set first with old | rfl
        · exact .inl old
        · exact .inr ⟨entry.1, List.mem_cons_self⟩
      · exact .inr ⟨name, List.mem_cons_of_mem _ later⟩

theorem not_stores_empty : ¬ ({} : Record).Stores part := by
  intro stores
  rcases stores with ⟨_, member⟩
  cases member

end Record

namespace Heap

/-! ## What values lead to -/

/-- One value is stored in the other one. A function holds the frames of its
scope. -/
def Holds (heap : Heap) : Value → Value → Prop
  | .array ref, part => (heap.array ref).Stores part
  | .object ref, part => (heap.object ref).Stores part
  | .function ref, part => ∃ closure, (heap.function ref).body = .arrow closure ∧
      ∃ frame ∈ closure.scope.frames, part = .object frame
  | _, _ => False

/-- One value is found in the other one, at any depth. -/
def Reaches (heap : Heap) : Value → Value → Prop := Relation.ReflTransGen heap.Holds

variable {good : FunctionValue → Prop} {heap after : Heap} {value part : Value}

/-- All functions that the value leads to are good. -/
def Trusted (good : FunctionValue → Prop) (heap : Heap) (value : Value) : Prop :=
  ∀ ref, heap.Reaches value (.function ref) → good (heap.function ref)

theorem Trusted.holds (trusted : heap.Trusted good value) (holds : heap.Holds value part) :
    heap.Trusted good part :=
  fun ref reaches => trusted ref (.head holds reaches)

theorem Trusted.function {ref : FunctionRef} (trusted : heap.Trusted good (.function ref)) :
    good (heap.function ref) :=
  trusted ref .refl

theorem trusted_of_parts (functions : ∀ ref, value = .function ref → good (heap.function ref))
    (parts : ∀ part, heap.Holds value part → heap.Trusted good part) :
    heap.Trusted good value := by
  intro ref reaches
  rcases Relation.ReflTransGen.cases_head reaches with equal | ⟨next, holds, later⟩
  · exact functions ref equal
  · exact parts next holds ref later

theorem trusted_primitive (primitive : value.isObjectLike = false) : heap.Trusted good value := by
  apply trusted_of_parts
  · intro ref equal
    rw [equal] at primitive
    cases primitive
  · intro part holds
    cases value <;> first | exact holds.elim | cases primitive

theorem trusted_regExp (ref : RegExpRef) : heap.Trusted good (.regExp ref) :=
  trusted_of_parts nofun fun _ holds => holds.elim

theorem trusted_of_closed {members : Value → Prop}
    (parts : ∀ value part, members value → after.Holds value part → members part)
    (functions : ∀ ref, members (.function ref) → good (after.function ref))
    (member : members value) : after.Trusted good value := by
  intro ref reaches
  apply functions
  generalize Value.function ref = last at reaches
  induction reaches with
  | refl => exact member
  | tail _ holds induction => exact parts _ _ induction holds

/-! ## Places of the heap -/

theorem array_newArray (heap : Heap) (store : ArrayStore) (ref : ArrayRef) :
    (heap.newArray store).2.array ref =
      if ref.index = heap.arrays.size then store else heap.array ref := by
  simp only [newArray, array, Array.getElem?_push]
  split <;> rfl

theorem object_newObject (heap : Heap) (record : Record) (ref : ObjectRef) :
    (heap.newObject record).2.object ref =
      if ref.index = heap.objects.size then record else heap.object ref := by
  simp only [newObject, object, Array.getElem?_push]
  split <;> rfl

theorem function_newFunction (heap : Heap) (function : FunctionValue) (ref : FunctionRef) :
    (heap.newFunction function).2.function ref =
      if ref.index = heap.functions.size then function else heap.function ref := by
  simp only [newFunction, Heap.function, Array.getElem?_push]
  split <;> rfl

theorem array_setArray (heap : Heap) (target : ArrayRef) (store : ArrayStore) (ref : ArrayRef) :
    (heap.setArray target store).array ref =
      if ref = target ∧ target.index < heap.arrays.size then store else heap.array ref := by
  simp only [setArray, array, Array.getElem?_setIfInBounds]
  rcases ref with ⟨index⟩
  rcases target with ⟨place⟩
  by_cases same : place = index
  · subst same
    by_cases inside : place < heap.arrays.size
    · simp [inside]
    · simp [inside]
  · simp [same, Ne.symm same]

theorem object_setObject (heap : Heap) (target : ObjectRef) (record : Record) (ref : ObjectRef) :
    (heap.setObject target record).object ref =
      if ref = target ∧ target.index < heap.objects.size then record else heap.object ref := by
  simp only [setObject, object, Array.getElem?_setIfInBounds]
  rcases ref with ⟨index⟩
  rcases target with ⟨place⟩
  by_cases same : place = index
  · subst same
    by_cases inside : place < heap.objects.size
    · simp [inside]
    · simp [inside]
  · simp [same, Ne.symm same]

/-! ## Steps -/

/-- One change of the heap. What is stored is trusted or was there before, and new
functions are good and see trusted variables. No array grows beyond the largest
length, unless it is created with all of its elements. -/
inductive Step (good : FunctionValue → Prop) (heap : Heap) : Heap → Prop
  | newArray (store : ArrayStore) (isWhole : store.IsWhole)
      (trusted : ∀ value, store.Stores value → heap.Trusted good value) :
      Step good heap (heap.newArray store).2
  | newObject (record : Record) (trusted : ∀ value, record.Stores value → heap.Trusted good value) :
      Step good heap (heap.newObject record).2
  | newFunction (function : FunctionValue) (isGood : good function)
      (trusted : ∀ closure, function.body = .arrow closure →
        ∀ frame ∈ closure.scope.frames, heap.Trusted good (.object frame)) :
      Step good heap (heap.newFunction function).2
  | newRegExp (regExp : RegExpValue) : Step good heap (heap.newRegExp regExp).2
  | setArray (ref : ArrayRef) (store : ArrayStore) (bounded : (heap.array ref).Bounds store)
      (trusted : ∀ value, store.Stores value →
        (heap.array ref).Stores value ∨ heap.Trusted good value) :
      Step good heap (heap.setArray ref store)
  | setObject (ref : ObjectRef) (record : Record)
      (trusted : ∀ value, record.Stores value →
        (heap.object ref).Stores value ∨ heap.Trusted good value) :
      Step good heap (heap.setObject ref record)

theorem Step.holds (step : heap.Step good after) (trusted : heap.Trusted good value)
    (holds : after.Holds value part) : heap.Trusted good part := by
  have unchanged : heap.Holds value part → heap.Trusted good part := trusted.holds
  cases value with
  | array ref =>
      change (after.array ref).Stores part at holds
      cases step with
      | newArray store isWhole allTrusted =>
          rw [array_newArray] at holds
          split at holds
          · exact allTrusted part holds
          · exact unchanged holds
      | setArray target store bounded allTrusted =>
          rw [array_setArray] at holds
          split at holds
          · next same =>
              rcases allTrusted part holds with old | isTrusted
              · exact unchanged (same.1 ▸ old)
              · exact isTrusted
          · exact unchanged holds
      | _ => exact unchanged holds
  | object ref =>
      change (after.object ref).Stores part at holds
      cases step with
      | newObject record allTrusted =>
          rw [object_newObject] at holds
          split at holds
          · exact allTrusted part holds
          · exact unchanged holds
      | setObject target record allTrusted =>
          rw [object_setObject] at holds
          split at holds
          · next same =>
              rcases allTrusted part holds with old | isTrusted
              · exact unchanged (same.1 ▸ old)
              · exact isTrusted
          · exact unchanged holds
      | _ => exact unchanged holds
  | function ref =>
      rcases holds with ⟨closure, isArrow, frame, member, rfl⟩
      have kept : (heap.function ref).body = .arrow closure →
          heap.Trusted good (.object frame) :=
        fun isArrow => unchanged ⟨closure, isArrow, frame, member, rfl⟩
      cases step with
      | newFunction function isGood allTrusted =>
          rw [function_newFunction] at isArrow
          split at isArrow
          · exact allTrusted closure isArrow frame member
          · exact kept isArrow
      | _ => exact kept isArrow
  | _ => exact holds.elim

theorem Step.function {ref : FunctionRef} (step : heap.Step good after)
    (isGood : good (heap.function ref)) : good (after.function ref) := by
  cases step with
  | newFunction function isGood' _ =>
      rw [function_newFunction]
      split
      · exact isGood'
      · exact isGood
  | _ => exact isGood

theorem Step.trusted (step : heap.Step good after) (trusted : heap.Trusted good value) :
    after.Trusted good value :=
  trusted_of_closed (fun _ _ trusted holds => step.holds trusted holds)
    (fun _ trusted => step.function trusted.function) trusted

def Evolves (good : FunctionValue → Prop) : Heap → Heap → Prop :=
  Relation.ReflTransGen (Step good)

theorem Evolves.trusted (evolves : Evolves good heap after) (trusted : heap.Trusted good value) :
    after.Trusted good value := by
  induction evolves with
  | refl => exact trusted
  | tail _ step induction => exact step.trusted induction

/-! ## New places are trusted -/

theorem trusted_newArray {store : ArrayStore} (isWhole : store.IsWhole)
    (trusted : ∀ value, store.Stores value → heap.Trusted good value) :
    let (ref, after) := heap.newArray store
    after.Trusted good (.array ref) := by
  have step : heap.Step good (heap.newArray store).2 := .newArray store isWhole trusted
  refine trusted_of_parts nofun fun part holds => ?_
  change ((heap.newArray store).2.array ⟨heap.arrays.size⟩).Stores part at holds
  rw [array_newArray, if_pos rfl] at holds
  exact step.trusted (trusted part holds)

theorem trusted_newObject {record : Record}
    (trusted : ∀ value, record.Stores value → heap.Trusted good value) :
    let (ref, after) := heap.newObject record
    after.Trusted good (.object ref) := by
  have step : heap.Step good (heap.newObject record).2 := .newObject record trusted
  refine trusted_of_parts nofun fun part holds => ?_
  change ((heap.newObject record).2.object ⟨heap.objects.size⟩).Stores part at holds
  rw [object_newObject, if_pos rfl] at holds
  exact step.trusted (trusted part holds)

theorem trusted_newFunction {function : FunctionValue} (isGood : good function)
    (trusted : ∀ closure, function.body = .arrow closure →
      ∀ frame ∈ closure.scope.frames, heap.Trusted good (.object frame)) :
    let (ref, after) := heap.newFunction function
    after.Trusted good (.function ref) := by
  have step : heap.Step good (heap.newFunction function).2 := .newFunction function isGood trusted
  have found : (heap.newFunction function).2.function ⟨heap.functions.size⟩ = function := by
    rw [function_newFunction, if_pos rfl]
  refine trusted_of_parts ?_ ?_
  · intro ref equal
    cases equal
    change good ((heap.newFunction function).2.function ⟨heap.functions.size⟩)
    rw [found]
    exact isGood
  · intro part holds
    rcases holds with ⟨closure, isArrow, frame, member, rfl⟩
    change ((heap.newFunction function).2.function ⟨heap.functions.size⟩).body = _ at isArrow
    rw [found] at isArrow
    exact step.trusted (trusted closure isArrow frame member)

/-! ## Reading and writing -/

theorem trusted_lookup? {scope : Scope} {name : String}
    (frames : ∀ frame ∈ scope.frames, heap.Trusted good (.object frame))
    (found : heap.lookup? scope name = some value) : heap.Trusted good value := by
  rcases List.exists_of_findSome?_eq_some found with ⟨frame, member, stored⟩
  exact (frames frame member).holds (Record.stores_of_get? stored)

def Stores (heap : Heap) : Value → Value → Prop
  | .array ref, part => (heap.array ref).Stores part
  | .object ref, part => (heap.object ref).Stores part
  | _, _ => False

theorem Stores.holds (stores : heap.Stores value part) : heap.Holds value part := by
  cases value with
  | array ref => exact stores
  | object ref => exact stores
  | _ => exact stores.elim

theorem stores_newArray {store : ArrayStore}
    (stores : (heap.newArray store).2.Stores value part) :
    heap.Stores value part ∨ store.Stores part := by
  cases value with
  | array ref =>
      change ((heap.newArray store).2.array ref).Stores part at stores
      rw [array_newArray] at stores
      split at stores
      · exact .inr stores
      · exact .inl stores
  | _ => exact .inl stores

theorem stores_newObject {record : Record}
    (stores : (heap.newObject record).2.Stores value part) :
    heap.Stores value part ∨ record.Stores part := by
  cases value with
  | object ref =>
      change ((heap.newObject record).2.object ref).Stores part at stores
      rw [object_newObject] at stores
      split at stores
      · exact .inr stores
      · exact .inl stores
  | _ => exact .inl stores

theorem stores_newFunction {function : FunctionValue}
    (stores : (heap.newFunction function).2.Stores value part) : heap.Stores value part := by
  cases value <;> exact stores

theorem stores_newRegExp {regExp : RegExpValue}
    (stores : (heap.newRegExp regExp).2.Stores value part) : heap.Stores value part := by
  cases value <;> exact stores

theorem stores_setArray {ref : ArrayRef} {store : ArrayStore}
    (stores : (heap.setArray ref store).Stores value part) :
    heap.Stores value part ∨ value = .array ref ∧ store.Stores part := by
  cases value with
  | array other =>
      change ((heap.setArray ref store).array other).Stores part at stores
      rw [array_setArray] at stores
      split at stores
      · next same => exact .inr ⟨congrArg _ same.1, stores⟩
      · exact .inl stores
  | _ => exact .inl stores

theorem stores_setObject {ref : ObjectRef} {record : Record}
    (stores : (heap.setObject ref record).Stores value part) :
    heap.Stores value part ∨ value = .object ref ∧ record.Stores part := by
  cases value with
  | object other =>
      change ((heap.setObject ref record).object other).Stores part at stores
      rw [object_setObject] at stores
      split at stores
      · next same => exact .inr ⟨congrArg _ same.1, stores⟩
      · exact .inl stores
  | _ => exact .inl stores

def Shares (heap : Heap) (value part : Value) : Prop :=
  part.isObjectLike = false ∨ heap.Stores value part

theorem Trusted.shares (trusted : heap.Trusted good value) (shares : heap.Shares value part) :
    heap.Trusted good part := by
  rcases shares with primitive | stores
  · exact trusted_primitive primitive
  · exact trusted.holds stores.holds

theorem shares_get (heap : Heap) (ref : ArrayRef) (index : Nat) :
    heap.Shares (.array ref) ((heap.array ref).get index) := by
  rcases (heap.array ref).get_cases index with nothing | stores
  · rw [nothing]
    exact .inl rfl
  · exact .inr stores

theorem shares_getProperty {object : Value} {key : String}
    (run : heap.getProperty object key = .ok value) : heap.Shares object value := by
  cases object with
  | undefined => cases run
  | null => cases run
  | boolean => cases run; exact .inl rfl
  | number => cases run; exact .inl rfl
  | string text =>
      cases run
      unfold stringProperty
      split
      · exact .inl rfl
      · split <;> exact .inl rfl
  | array ref =>
      cases run
      unfold arrayProperty
      split
      · exact .inl rfl
      · split
        · exact heap.shares_get ref _
        · cases found : (heap.array ref).getNamed? key with
          | none => exact .inl rfl
          | some named => exact .inr (ArrayStore.stores_of_getNamed? found)
  | object ref =>
      cases run
      rcases (heap.object ref).get_cases key with nothing | stores
      · rw [nothing]
        exact .inl rfl
      · exact .inr stores
  | function ref =>
      cases run
      unfold functionProperty
      split
      · exact .inl rfl
      · split <;> exact .inl rfl
  | regExp ref =>
      cases run
      unfold regExpProperty
      split
      · exact .inl rfl
      · split
        · exact .inl rfl
        · split <;> exact .inl rfl

theorem shares_iterate {values : List Value} (run : heap.iterate value = .ok values) :
    ∀ item ∈ values, heap.Shares value item := by
  intro item member
  cases value with
  | array ref =>
      cases run
      rcases List.mem_map.mp member with ⟨index, -, rfl⟩
      exact heap.shares_get ref index
  | string text =>
      cases run
      rcases List.mem_map.mp member with ⟨c, -, rfl⟩
      exact .inl rfl
  | _ => cases run

theorem shares_ownEntries {key : String} (member : (key, part) ∈ heap.ownEntries value) :
    heap.Shares value part := by
  cases value with
  | object ref => exact .inr ⟨key, member⟩
  | array ref =>
      rcases List.mem_map.mp member with ⟨⟨index, element⟩, inside, equal⟩
      cases equal
      exact .inr (ArrayStore.stores_of_mem_entries inside)
  | string text =>
      rcases List.mem_map.mp member with ⟨⟨code, index⟩, -, equal⟩
      cases equal
      exact .inl rfl
  | _ => cases member

theorem trusted_getProperty {object : Value} {key : String} (trusted : heap.Trusted good object)
    (run : heap.getProperty object key = .ok value) : heap.Trusted good value :=
  trusted.shares (shares_getProperty run)

theorem trusted_iterate {values : List Value} (trusted : heap.Trusted good value)
    (run : heap.iterate value = .ok values) : ∀ item ∈ values, heap.Trusted good item :=
  fun item member => trusted.shares (shares_iterate run item member)

theorem trusted_ownEntries {key : String} (trusted : heap.Trusted good value)
    (member : (key, part) ∈ heap.ownEntries value) : heap.Trusted good part :=
  trusted.shares (shares_ownEntries member)

theorem primitive_binary {op : BinaryOp} {left right result : Value}
    (run : heap.binary op left right = .ok result) : result.isObjectLike = false := by
  cases op with
  | arithmetic op =>
      cases run
      unfold arithmetic
      split
      · unfold add
        dsimp only
        split <;> rfl
      · rfl
  | isIn =>
      simp only [binary, bind, Except.bind] at run
      split at run
      · cases run
      · cases run
        rfl
  | isInstance =>
      simp only [binary, bind, Except.bind] at run
      split at run
      · cases run
      · cases run
        rfl
  | _ =>
      cases run
      rfl

theorem primitive_unary (op : UnaryOp) : (heap.unary op value).isObjectLike = false := by
  cases op <;> rfl

theorem stores_setArrayProperty {store changed : ArrayStore} {key : String}
    (written : heap.setArrayProperty store key value = .ok changed)
    (stores : changed.Stores part) : store.Stores part ∨ part = .undefined ∨ part = value := by
  unfold setArrayProperty at written
  split at written
  · split at written
    · exact .inl (ArrayStore.stores_setLength written stores)
    · cases written
  · split at written
    · exact ArrayStore.stores_set written stores
    · cases written
      exact (ArrayStore.stores_setNamed stores).imp_right .inr

theorem bounds_setArrayProperty {store changed : ArrayStore} {key : String}
    (written : heap.setArrayProperty store key value = .ok changed) : store.Bounds changed := by
  unfold setArrayProperty at written
  split at written
  · split at written
    · exact ArrayStore.bounds_setLength written
    · cases written
  · split at written
    · exact ArrayStore.bounds_set written
    · cases written
      exact ArrayStore.bounds_setNamed key

theorem evolves_setEntry {ref : ObjectRef} {key : String} (trusted : heap.Trusted good value) :
    Evolves good heap (heap.setObject ref ((heap.object ref).set key value)) := by
  refine .single (.setObject ref _ fun part stores => ?_)
  rcases Record.stores_set stores with old | rfl
  · exact .inl old
  · exact .inr trusted

theorem evolves_setProperty {object : Value} {key : String} (trusted : heap.Trusted good value)
    (run : heap.setProperty object key value = .ok after) : Evolves good heap after := by
  cases object with
  | undefined => cases run
  | null => cases run
  | array ref =>
      simp only [setProperty, bind, Except.bind] at run
      split at run
      · cases run
      · next store written =>
          cases run
          refine .single (.setArray ref store (bounds_setArrayProperty written)
            fun part stores => ?_)
          rcases stores_setArrayProperty written stores with old | rfl | rfl
          · exact .inl old
          · exact .inr (trusted_primitive rfl)
          · exact .inr trusted
  | object ref =>
      cases run
      exact evolves_setEntry trusted
  | _ =>
      cases run
      exact .refl

theorem evolves_setVariable {frame : ObjectRef} {name : String}
    (trusted : heap.Trusted good value) : Evolves good heap (heap.setVariable frame name value) :=
  evolves_setEntry trusted

theorem evolves_foldl (write : Heap → String × Value → Heap)
    (single : ∀ heap entry, heap.Trusted good entry.2 → Evolves good heap (write heap entry))
    (entries : List (String × Value)) (trusted : ∀ entry ∈ entries, heap.Trusted good entry.2) :
    Evolves good heap (entries.foldl write heap) := by
  induction entries generalizing heap with
  | nil => exact .refl
  | cons entry entries induction =>
      have first := single heap entry (trusted entry List.mem_cons_self)
      exact first.trans (induction fun later member =>
        first.trusted (trusted later (List.mem_cons_of_mem _ member)))

end Heap

end ExprScript
