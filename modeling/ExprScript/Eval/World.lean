import ExprScript.Value.Scope
import ExprScript.Value.Convert

/-!
The state of an evaluation and the steps that change it. The state survives a
failure: what was written before stays written.
-/

namespace ExprScript

structure NodeId where
  tree : Nat
  path : Path
deriving DecidableEq, Repr

abbrev Memo := List (NodeId × Value)

namespace Memo

def get? (memo : Memo) (node : NodeId) : Option Value := memo.lookup node

def set (memo : Memo) (node : NodeId) (value : Value) : Memo := (node, value) :: memo

def erase (memo : Memo) (node : NodeId) : Memo := memo.filter (·.1 ≠ node)

end Memo

structure LogEntry where
  value : Value
  heap : Heap

structure World where
  heap : Heap := {}
  memo : Memo := []
  /-- What the host has noted, the latest first. -/
  log : List LogEntry := []
  /-- The number of the next tree. -/
  nextTree : Nat := 0

/-- Why an evaluation has no value. -/
inductive Failure where
  /-- The program is wrong. -/
  | raised (error : Error)
  /-- Calls are nested too deeply. -/
  | exhausted
deriving DecidableEq, Repr

/-- A computation on the world. -/
abbrev Eval := EStateM Failure World

namespace Eval

def raise {α : Type} (cause : Cause) (position : Position) : Eval α :=
  throw (.raised { cause, position })

def ofExcept {α : Type} : Except Error α → Eval α
  | .ok result => pure result
  | .error error => throw (.raised error)

def anchored {α : Type} (position : Position) (action : Eval α) : Eval α := fun world =>
  match action.run world with
  | .error (.raised error) world => .error (.raised (error.anchoredAt position)) world
  | result => result

def heap : Eval Heap := return (← get).heap

def setHeap (heap : Heap) : Eval Unit := modify fun world => { world with heap }

def inspect {α : Type} (read : Heap → α) : Eval α := return read (← heap)

def modifyHeap (change : Heap → Heap) : Eval Unit :=
  modify fun world => { world with heap := change world.heap }

def allocate {α : Type} (new : Heap → α × Heap) : Eval α :=
  modifyGet fun world =>
    let (result, heap) := new world.heap
    (result, { world with heap })

def newArray (elements : List Value) : Eval Value :=
  return .array (← allocate fun heap => heap.newArray (.ofList elements))

def newObject (record : Record) : Eval Value :=
  return .object (← allocate fun heap => heap.newObject record)

def newTree : Eval Nat :=
  modifyGet fun world => (world.nextTree, { world with nextTree := world.nextTree + 1 })

def note (value : Value) : Eval Unit :=
  modify fun world => { world with log := { value, heap := world.heap } :: world.log }

end Eval

end ExprScript
