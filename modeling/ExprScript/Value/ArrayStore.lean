import ExprScript.Error
import ExprScript.Value.Basic

/-!
The storage of an array: a dense beginning, single elements far behind it, a
length that is kept apart, and a few properties by name. An element that was
never stored reads as `undefined`.
-/

namespace ExprScript

structure ArrayStore where
  /-- The elements from index zero on. -/
  dense : Array Value := #[]
  /-- The elements behind the dense ones, by increasing index. -/
  sparse : List (Nat × Value) := []
  length : Nat := 0
  named : List (String × Value) := []

namespace ArrayStore

def maxLength : Nat := 1 <<< 24

def maxGap : Nat := 1024

def ofList (elements : List Value) : ArrayStore :=
  { dense := elements.toArray, length := elements.length }

def sparseGet? (index : Nat) : List (Nat × Value) → Option Value
  | [] => none
  | (key, value) :: entries => if key = index then some value else sparseGet? index entries

def sparseInsert (index : Nat) (value : Value) : List (Nat × Value) → List (Nat × Value)
  | [] => [(index, value)]
  | (key, old) :: entries =>
    if key < index then (key, old) :: sparseInsert index value entries
    else if key = index then (index, value) :: entries
    else (index, value) :: (key, old) :: entries

def get? (store : ArrayStore) (index : Nat) : Option Value :=
  if index < store.dense.size then store.dense[index]? else sparseGet? index store.sparse

def get (store : ArrayStore) (index : Nat) : Value := (store.get? index).getD .undefined

def hasIndex (store : ArrayStore) (index : Nat) : Bool :=
  index < store.dense.size || (sparseGet? index store.sparse).isSome

/-- Moves elements that were stored apart to the dense ones, as long as they
lie among them or follow directly. -/
def absorb : Array Value → List (Nat × Value) → Array Value × List (Nat × Value)
  | dense, [] => (dense, [])
  | dense, (index, value) :: entries =>
    if index < dense.size then absorb (dense.setIfInBounds index value) entries
    else if index = dense.size then absorb (dense.push value) entries
    else (dense, (index, value) :: entries)

/-- The dense elements, filled up to an index behind them and with a value
there. -/
def extend (dense : Array Value) (index : Nat) (value : Value) : Array Value :=
  (dense ++ Array.replicate (index - dense.size) Value.undefined).push value

def invalidLength {α : Type} : Except Error α := .error { cause := .invalidArrayLength }

def set (store : ArrayStore) (index : Nat) (value : Value) : Except Error ArrayStore :=
  if maxLength ≤ index then invalidLength
  else
    let length := max store.length (index + 1)
    if index < store.dense.size then
      .ok { store with dense := store.dense.setIfInBounds index value, length }
    else if index - store.dense.size ≤ maxGap then
      let (dense, sparse) := absorb (extend store.dense index value) store.sparse
      .ok { store with dense, sparse, length }
    else
      .ok { store with sparse := sparseInsert index value store.sparse, length }

def push (store : ArrayStore) (value : Value) : Except Error (ArrayStore × Nat) := do
  let extended ← store.set store.length value
  return (extended, extended.length)

def setLength (store : ArrayStore) (length : Nat) : Except Error ArrayStore :=
  if maxLength < length then invalidLength
  else
    .ok { store with
      dense := store.dense.take length
      sparse := store.sparse.filter (·.1 < length)
      length }

def toList (store : ArrayStore) : List Value := (List.range store.length).map store.get

def entries (store : ArrayStore) : List (Nat × Value) :=
  store.dense.toList.zipIdx.map (fun (value, index) => (index, value)) ++ store.sparse

def isEmpty (store : ArrayStore) : Bool := store.length == 0

def getNamed? (store : ArrayStore) (key : String) : Option Value := store.named.lookup key

def hasNamed (store : ArrayStore) (key : String) : Bool := (store.getNamed? key).isSome

def insertNamed (key : String) (value : Value) :
    List (String × Value) → List (String × Value)
  | [] => [(key, value)]
  | (name, old) :: others =>
    if name = key then (key, value) :: others else (name, old) :: insertNamed key value others

def setNamed (store : ArrayStore) (key : String) (value : Value) : ArrayStore :=
  { store with named := insertNamed key value store.named }

end ArrayStore

end ExprScript
