import ExprScript.Eval.Call
import ExprScript.Proofs.Comparison

/-! # Views of functions

A program cannot look into a function: it can read its name, its text and its number of
parameters, and it can call it. So what a program reads off a heap stays the same when every
function is replaced by another one that agrees with it in these respects.
-/

namespace ExprScript

structure FunctionView where
  see : FunctionValue → FunctionValue
  name : ∀ function, (see function).name = function.name
  constructible : ∀ function, (see function).constructible = function.constructible
  sourceText : ∀ function, (see function).sourceText = function.sourceText
  paramCount : ∀ function, (see function).paramCount = function.paramCount
  /-- Functions of the host are kept. -/
  native : ∀ name key constructible,
    see { name, body := .native key, constructible } = { name, body := .native key, constructible }

namespace Heap

variable (view : FunctionView) (heap : Heap)

def seen : Heap := { heap with functions := heap.functions.map view.see }

theorem function_seen (ref : FunctionRef) :
    (heap.seen view).function ref = view.see (heap.function ref) := by
  simp only [function, seen, Array.getElem?_map]
  cases heap.functions[ref.index]? with
  | none => exact (view.native _ _ _).symm
  | some function => rfl

theorem newFunction_seen (function : FunctionValue) :
    (heap.newFunction function).2.seen view =
      ((heap.seen view).newFunction (view.see function)).2 := by
  simp only [newFunction, seen, Array.map_push]

/-! ## What is read off a heap -/

theorem textWithin_seen (depth : Nat) (enclosing : List ArrayRef) (value : Value) :
    (heap.seen view).textWithin depth enclosing value = heap.textWithin depth enclosing value := by
  induction depth generalizing enclosing value with
  | zero =>
      cases value with
      | function ref => rw [textWithin, textWithin, function_seen, view.sourceText]
      | _ => simp only [textWithin] <;> rfl
  | succ depth induction =>
      cases value with
      | function ref => rw [textWithin, textWithin, function_seen, view.sourceText]
      | array ref =>
          simp only [textWithin, induction]
          rfl
      | _ => simp only [textWithin] <;> rfl

theorem toText_seen (value : Value) : (heap.seen view).toText value = heap.toText value :=
  heap.textWithin_seen view _ [] value

theorem toNumber_seen (value : Value) : (heap.seen view).toNumber value = heap.toNumber value := by
  cases value <;> simp only [toNumber, toText_seen]

theorem toPrimitive_seen (value : Value) :
    (heap.seen view).toPrimitive value = heap.toPrimitive value := by
  simp only [toPrimitive, toText_seen]

theorem toPropertyKey_seen (value : Value) :
    (heap.seen view).toPropertyKey value = heap.toPropertyKey value :=
  heap.toText_seen view value

theorem getProperty_seen (object : Value) (key : String) :
    (heap.seen view).getProperty object key = heap.getProperty object key := by
  cases object with
  | function ref =>
      simp only [getProperty, functionProperty, function_seen, view.paramCount, view.name]
  | _ => simp only [getProperty, toText_seen] <;> rfl

theorem setArrayProperty_seen (store : ArrayStore) (key : String) (value : Value) :
    (heap.seen view).setArrayProperty store key value = heap.setArrayProperty store key value := by
  simp only [setArrayProperty, toNumber_seen]

theorem setProperty_seen (object : Value) (key : String) (value : Value) :
    (heap.seen view).setProperty object key value =
      (heap.setProperty object key value).map (seen view) := by
  cases object with
  | array ref =>
      simp only [setProperty, setArrayProperty_seen]
      change (heap.setArrayProperty (heap.array ref) key value >>= _) = _
      cases heap.setArrayProperty (heap.array ref) key value <;> rfl
  | _ =>
      simp only [setProperty, toText_seen]
      rfl

theorem hasProperty_seen (object : Value) (key : String) :
    (heap.seen view).hasProperty object key = heap.hasProperty object key := by
  cases object <;> simp only [hasProperty, toText_seen] <;> rfl

theorem iterate_seen (value : Value) : (heap.seen view).iterate value = heap.iterate value := by
  cases value <;> simp only [iterate, toText_seen]
  rfl

theorem ownEntries_seen (value : Value) :
    (heap.seen view).ownEntries value = heap.ownEntries value := rfl

theorem looseEqual_seen (first second : Value) :
    (heap.seen view).looseEqual first second = heap.looseEqual first second := by
  simp only [looseEqual_eq_convertedEqual, convertedEqual, toPrimitive_seen]

theorem compare?_seen (first second : Value) :
    (heap.seen view).compare? first second = heap.compare? first second := by
  simp only [compare?, toPrimitive_seen, toNumber_seen]

theorem arithmetic_seen (op : ArithmeticOp) (left right : Value) :
    (heap.seen view).arithmetic op left right = heap.arithmetic op left right := by
  simp only [arithmetic, add, toPrimitive_seen, toText_seen, toNumber_seen]

theorem binary_seen (op : BinaryOp) (left right : Value) :
    (heap.seen view).binary op left right = heap.binary op left right := by
  cases op <;> simp only [binary, arithmetic_seen, looseEqual_seen, compare?_seen,
    hasProperty_seen, toPropertyKey_seen]
  rfl

theorem unary_seen (op : UnaryOp) (value : Value) :
    (heap.seen view).unary op value = heap.unary op value := by
  simp only [unary, toNumber_seen]

/-! ## Structural equality -/

theorem Matches.of_same {left right : Heap} {related : Value → Value → Prop}
    {first second : Value} (holds : left.Matches related first second)
    (arrays : left.array = right.array) (objects : left.object = right.object)
    (regExps : left.regExp = right.regExp) : right.Matches related first second := by
  cases holds with
  | number equal => exact .number equal
  | regExp equal => exact .regExp (regExps ▸ equal)
  | array length elements => exact .array (arrays ▸ length) (arrays ▸ elements)
  | object keys values => exact .object (objects ▸ keys) (objects ▸ values)
  | _ => constructor

theorem structuralEqual_seen (first second : Value) :
    (heap.seen view).structuralEqual first second = heap.structuralEqual first second := by
  have matching : (heap.seen view).matching = heap.matching := by
    ext related value other
    exact ⟨fun holds => Matches.of_same holds rfl rfl rfl,
      fun holds => Matches.of_same holds rfl rfl rfl⟩
  rw [Bool.eq_iff_iff, structuralEqual_iff_alike, structuralEqual_iff_alike, Alike, Alike,
    matching]

end Heap

end ExprScript
