import ExprScript.Text.Units
import ExprScript.Value.Convert

/-!
Properties of values, and the values that a value is made of.
-/

namespace ExprScript

/-- The index that a key denotes. A key is an index if it is written as the
index is, and smaller than the greatest word of 32 bits. -/
def arrayIndex? (key : String) : Option Nat :=
  match key.toList with
  | [] => none
  | first :: rest =>
    if first == '0' && !rest.isEmpty then none
    else if !(first :: rest).all Char.isDigit then none
    else
      let index := Number.digitsToNat 10 (first :: rest)
      if index < 0xffffffff then some index else none

def arrayLength? (number : Float) : Option Nat :=
  if number.isFinite then
    let value := Number.Dyadic.ofFloat number
    let whole := value.truncate
    let isWhole := 0 ≤ value.exponent || value.mantissa % (1 <<< (-value.exponent).toNat) == 0
    if isWhole && 0 ≤ whole && whole < 0x100000000 then some whole.toNat else none
  else none

namespace Heap

def fail {α : Type} (cause : Cause) : Except Error α := .error { cause }

def stringProperty (text key : String) : Value :=
  if key == "length" then .number (Float.ofNat (Text.units text).length)
  else
    match (arrayIndex? key).bind fun index => (Text.units text)[index]? with
    | some code => .string (Text.ofUnit code)
    | none => .undefined

def arrayProperty (store : ArrayStore) (key : String) : Value :=
  if key == "length" then .number (Float.ofNat store.length)
  else
    match arrayIndex? key with
    | some index => store.get index
    | none => (store.getNamed? key).getD .undefined

def functionProperty (function : FunctionValue) (key : String) : Value :=
  if key == "name" then .string function.name
  else if key == "length" then .number (Float.ofNat function.paramCount)
  else .undefined

def regExpProperty (regExp : RegExpValue) (key : String) : Value :=
  if key == "source" then .string regExp.pattern
  else if key == "flags" then .string regExp.flags
  else if key == "global" then .boolean (regExp.flags.toList.contains 'g')
  else .undefined

/-- Reads a property. One that is not there reads as `undefined`, but nothing
can be read from the values that stand for nothing. -/
def getProperty (heap : Heap) (object : Value) (key : String) : Except Error Value :=
  match object with
  | .undefined | .null => fail (.readFromNullish (heap.toText object) key)
  | .string text => .ok (stringProperty text key)
  | .array ref => .ok (arrayProperty (heap.array ref) key)
  | .object ref => .ok ((heap.object ref).get key)
  | .function ref => .ok (functionProperty (heap.function ref) key)
  | .regExp ref => .ok (regExpProperty (heap.regExp ref) key)
  | .boolean _ | .number _ => .ok .undefined

def setArrayProperty (heap : Heap) (store : ArrayStore) (key : String) (value : Value) :
    Except Error ArrayStore :=
  if key == "length" then
    match arrayLength? (heap.toNumber value) with
    | some length => store.setLength length
    | none => ArrayStore.invalidLength
  else
    match arrayIndex? key with
    | some index => store.set index value
    | none => .ok (store.setNamed key value)

/-- Writes a property. Writing to a primitive value has no effect, but nothing
can be written to the values that stand for nothing. -/
def setProperty (heap : Heap) (object : Value) (key : String) (value : Value) :
    Except Error Heap :=
  match object with
  | .undefined | .null => fail (.writeToNullish (heap.toText object) key)
  | .array ref => do
    let store ← heap.setArrayProperty (heap.array ref) key value
    return heap.setArray ref store
  | .object ref => .ok (heap.setObject ref ((heap.object ref).set key value))
  | _ => .ok heap

def hasProperty (heap : Heap) (object : Value) (key : String) : Except Error Bool :=
  match object with
  | .object ref => .ok ((heap.object ref).has key)
  | .array ref =>
    let store := heap.array ref
    .ok (key == "length" || (arrayIndex? key).any store.hasIndex || store.hasNamed key)
  | .function _ => .ok (key == "name" || key == "length")
  | .regExp _ => .ok (key == "source" || key == "flags" || key == "global")
  | _ => fail (.searchInPrimitive key (heap.toText object))

/-- The values that a spread or an array pattern takes a value apart into:
elements of an array, characters of a text. -/
def iterate (heap : Heap) (value : Value) : Except Error (List Value) :=
  match value with
  | .array ref => .ok (heap.array ref).toList
  | .string text => .ok (text.toList.map fun c => .string c.toString)
  | .undefined | .null => fail (.notIterable (heap.toText value))
  | _ => fail (.notIterable value.typeName)

def ownEntries (heap : Heap) (value : Value) : List (String × Value) :=
  match value with
  | .object ref => (heap.object ref).entries
  | .array ref => (heap.array ref).entries.map fun (index, element) => (toString index, element)
  | .string text =>
    (Text.units text).zipIdx.map fun (code, index) => (toString index, .string (Text.ofUnit code))
  | _ => []

end Heap

end ExprScript
