import ExprScript.Text.Quote
import ExprScript.Value.Heap

/-!
Looking up and writing variables. A name is looked for from the innermost
frame outwards; an assignment to a name that no frame has creates it in the
root.
-/

namespace ExprScript

namespace Scope

def frames (scope : Scope) : List ObjectRef := scope.inner :: scope.outer

def root (scope : Scope) : ObjectRef := scope.outer.getLast?.getD scope.inner

def depth (scope : Scope) : Nat := scope.frames.length

def hasParent (scope : Scope) : Bool := !scope.outer.isEmpty

def push (scope : Scope) (frame : ObjectRef) : Scope :=
  { inner := frame, outer := scope.frames }

def thisName : String := "this"

end Scope

namespace Heap

def hasName (heap : Heap) (scope : Scope) (name : String) : Bool :=
  scope.frames.any fun frame => (heap.object frame).has name

def lookup? (heap : Heap) (scope : Scope) (name : String) : Option Value :=
  scope.frames.findSome? fun frame => (heap.object frame).get? name

def lookup (heap : Heap) (scope : Scope) (name : String) : Value :=
  (heap.lookup? scope name).getD .undefined

def thisValue (heap : Heap) (scope : Scope) : Value := heap.lookup scope Scope.thisName

def setVariable (heap : Heap) (frame : ObjectRef) (name : String) (value : Value) : Heap :=
  heap.setObject frame ((heap.object frame).set name value)

def define (heap : Heap) (scope : Scope) (name : String) (value : Value) : Heap :=
  heap.setVariable scope.inner name value

def owner (heap : Heap) (scope : Scope) (name : String) : ObjectRef :=
  (scope.frames.find? fun frame => (heap.object frame).has name).getD scope.root

def assign (heap : Heap) (scope : Scope) (name : String) (value : Value) : Heap :=
  heap.setVariable (heap.owner scope name) name value

def newRoot (heap : Heap) (vars : Record) : Scope × Heap :=
  let (frame, heap) := heap.newObject vars
  ({ inner := frame }, heap)

def newChild (heap : Heap) (scope : Scope) (vars : Record) : Scope × Heap :=
  let (frame, heap) := heap.newObject vars
  (scope.push frame, heap)

def describeScope (heap : Heap) (scope : Scope) : String :=
  let names := (heap.object scope.inner).keys.map Text.quoteDiagnostic
  "Scope \x7b names: [" ++ ", ".intercalate names ++ "], depth: " ++ toString scope.depth ++
    " \x7d"

end Heap

end ExprScript
