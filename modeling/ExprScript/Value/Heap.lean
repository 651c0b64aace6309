import ExprScript.Tree.Basic
import ExprScript.Tree.Path
import ExprScript.Value.ArrayStore
import ExprScript.Value.Record

/-!
The heap: everything that values refer to. It only ever grows; arrays and
objects are changed in place, functions and regular expressions never change.
-/

namespace ExprScript

/-- Variables in frames, each of which is an object of the heap. The innermost
frame comes first, and the last one is the root. -/
structure Scope where
  inner : ObjectRef
  outer : List ObjectRef := []
deriving DecidableEq, Repr

/-- An arrow function with the variables it sees. -/
structure Closure where
  /-- The tree and the node that the function comes from. -/
  tree : Nat
  path : Path
  params : List Pattern
  body : Expr
  scope : Scope

inductive FunctionBody where
  /-- A function of the host, known to it by a key. -/
  | native (key : String)
  | arrow (closure : Closure)

structure FunctionValue where
  name : String
  body : FunctionBody
  constructible : Bool

namespace FunctionValue

def isNative (function : FunctionValue) : Bool :=
  match function.body with
  | .native _ => true
  | .arrow _ => false

def isArrow (function : FunctionValue) : Bool := !function.isNative

def isOptionalParam : Pattern → Bool
  | .withDefault .. | .rest .. => true
  | _ => false

def paramCount (function : FunctionValue) : Nat :=
  match function.body with
  | .native _ => 0
  | .arrow closure => (closure.params.takeWhile fun param => !isOptionalParam param).length

end FunctionValue

structure RegExpValue where
  pattern : String
  flags : String
deriving DecidableEq, Repr

structure Heap where
  arrays : Array ArrayStore := #[]
  objects : Array Record := #[]
  functions : Array FunctionValue := #[]
  regExps : Array RegExpValue := #[]

namespace Heap

def array (heap : Heap) (ref : ArrayRef) : ArrayStore := heap.arrays[ref.index]?.getD {}

def object (heap : Heap) (ref : ObjectRef) : Record := heap.objects[ref.index]?.getD {}

def function (heap : Heap) (ref : FunctionRef) : FunctionValue :=
  heap.functions[ref.index]?.getD { name := "", body := .native "", constructible := false }

def regExp (heap : Heap) (ref : RegExpRef) : RegExpValue :=
  heap.regExps[ref.index]?.getD { pattern := "", flags := "" }

def setArray (heap : Heap) (ref : ArrayRef) (store : ArrayStore) : Heap :=
  { heap with arrays := heap.arrays.setIfInBounds ref.index store }

def setObject (heap : Heap) (ref : ObjectRef) (record : Record) : Heap :=
  { heap with objects := heap.objects.setIfInBounds ref.index record }

def newArray (heap : Heap) (store : ArrayStore) : ArrayRef × Heap :=
  (⟨heap.arrays.size⟩, { heap with arrays := heap.arrays.push store })

def newObject (heap : Heap) (record : Record) : ObjectRef × Heap :=
  (⟨heap.objects.size⟩, { heap with objects := heap.objects.push record })

def newFunction (heap : Heap) (function : FunctionValue) : FunctionRef × Heap :=
  (⟨heap.functions.size⟩, { heap with functions := heap.functions.push function })

def newRegExp (heap : Heap) (regExp : RegExpValue) : RegExpRef × Heap :=
  (⟨heap.regExps.size⟩, { heap with regExps := heap.regExps.push regExp })

/-- The number of containers, which bounds the depth of every walk that enters
none of them twice. -/
def containerCount (heap : Heap) : Nat := heap.arrays.size + heap.objects.size

end Heap

end ExprScript
