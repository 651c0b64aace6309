import ExprScript.Eval.World
import Mathlib

/-! # Growing heaps

A container that is on the heap stays where it is, and a new array has the elements
that it is made of.
-/

namespace ExprScript

/-- The world that an evaluation leaves behind, with or without a value. -/
def worldAfter {α : Type} : EStateM.Result Failure World α → World
  | .ok _ after => after
  | .error _ after => after

/-! ## Heaps that keep their containers -/

/-- All containers of the heap are in the later heap, as they were. -/
structure Heap.Grows (heap later : Heap) : Prop where
  arrays : ∀ (index : Nat) store, heap.arrays[index]? = some store →
    later.arrays[index]? = some store
  objects : ∀ (index : Nat) record, heap.objects[index]? = some record →
    later.objects[index]? = some record

namespace Heap.Grows

variable {heap middle later : Heap}

theorem refl (heap : Heap) : heap.Grows heap := ⟨fun _ _ found => found, fun _ _ found => found⟩

theorem trans (grows : heap.Grows middle) (grows' : middle.Grows later) : heap.Grows later :=
  ⟨fun index store found => grows'.arrays index store (grows.arrays index store found),
    fun index record found => grows'.objects index record (grows.objects index record found)⟩

theorem arrays_size_le (grows : heap.Grows later) : heap.arrays.size ≤ later.arrays.size := by
  by_contra shorter
  have inside : later.arrays.size < heap.arrays.size := Nat.not_le.mp shorter
  have found := grows.arrays _ _ (Array.getElem?_eq_getElem inside)
  rw [Array.getElem?_eq_none (Nat.le_refl _)] at found
  cases found

theorem objects_size_le (grows : heap.Grows later) : heap.objects.size ≤ later.objects.size := by
  by_contra shorter
  have inside : later.objects.size < heap.objects.size := Nat.not_le.mp shorter
  have found := grows.objects _ _ (Array.getElem?_eq_getElem inside)
  rw [Array.getElem?_eq_none (Nat.le_refl _)] at found
  cases found

theorem getElem?_push {α : Type} {items : Array α} {index : Nat} {item : α}
    (found : items[index]? = some item) (last : α) : (items.push last)[index]? = some item := by
  rcases Array.getElem?_eq_some_iff.mp found with ⟨inside, -⟩
  rw [Array.getElem?_push, if_neg (Nat.ne_of_lt inside), found]

theorem newArray (heap : Heap) (store : ArrayStore) : heap.Grows (heap.newArray store).2 :=
  ⟨fun _ _ found => getElem?_push found store, fun _ _ found => found⟩

theorem newObject (heap : Heap) (record : Record) : heap.Grows (heap.newObject record).2 :=
  ⟨fun _ _ found => found, fun _ _ found => getElem?_push found record⟩

end Heap.Grows

structure Heap.Extends (heap later : Heap) : Prop extends heap.Grows later where
  functions : ∀ (index : Nat) function, heap.functions[index]? = some function →
    later.functions[index]? = some function
  regExps : ∀ (index : Nat) regExp, heap.regExps[index]? = some regExp →
    later.regExps[index]? = some regExp

namespace Heap.Extends

variable {heap middle later : Heap}

theorem refl (heap : Heap) : heap.Extends heap :=
  ⟨.refl heap, fun _ _ found => found, fun _ _ found => found⟩

theorem trans (first : heap.Extends middle) (second : middle.Extends later) :
    heap.Extends later where
  toGrows := first.toGrows.trans second.toGrows
  functions := fun index function found =>
    second.functions index function (first.functions index function found)
  regExps := fun index regExp found =>
    second.regExps index regExp (first.regExps index regExp found)

theorem newArray (heap : Heap) (store : ArrayStore) : heap.Extends (heap.newArray store).2 :=
  ⟨.newArray heap store, fun _ _ found => found, fun _ _ found => found⟩

theorem newObject (heap : Heap) (record : Record) : heap.Extends (heap.newObject record).2 :=
  ⟨.newObject heap record, fun _ _ found => found, fun _ _ found => found⟩

theorem newFunction (heap : Heap) (function : FunctionValue) :
    heap.Extends (heap.newFunction function).2 :=
  ⟨⟨fun _ _ found => found, fun _ _ found => found⟩,
    fun _ _ found => Grows.getElem?_push found function, fun _ _ found => found⟩

theorem newRegExp (heap : Heap) (regExp : RegExpValue) :
    heap.Extends (heap.newRegExp regExp).2 :=
  ⟨⟨fun _ _ found => found, fun _ _ found => found⟩,
    fun _ _ found => found, fun _ _ found => Grows.getElem?_push found regExp⟩

theorem object (grows : heap.Extends later) {ref : ObjectRef}
    (inside : ref.index < heap.objects.size) : later.object ref = heap.object ref := by
  rw [Heap.object, Heap.object, grows.objects _ _ (Array.getElem?_eq_getElem inside),
    Array.getElem?_eq_getElem inside]

end Heap.Extends

namespace ArrayStore

@[simp] theorem length_ofList (values : List Value) : (ofList values).length = values.length := rfl

theorem get_ofList (values : List Value) (index : Nat) :
    (ofList values).get index = values[index]?.getD .undefined := by
  simp only [get, get?, ofList, List.size_toArray, List.getElem?_toArray]
  split
  · rfl
  · next outside =>
      rw [List.getElem?_eq_none (Nat.not_lt.mp outside)]
      rfl

@[simp] theorem toList_ofList (values : List Value) : (ofList values).toList = values := by
  apply List.ext_getElem
  · simp [toList]
  · intro index inside inside'
    simp [toList, get_ofList, inside']

end ArrayStore

end ExprScript
