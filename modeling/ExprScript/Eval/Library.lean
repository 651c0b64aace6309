import ExprScript.Eval.Call
import ExprScript.Value.Equality

/-!
A small library of host functions.
-/

namespace ExprScript.Library

def arg (args : List Value) (index : Nat) : Value := (args[index]?).getD .undefined

def textArgument (fallback : String) (args : List Value) : Eval String :=
  match args with
  | [] => return fallback
  | value :: _ => Eval.inspect fun heap => heap.toText value

def sum : HostFunction := fun _ _ args => do
  let heap ← Eval.heap
  return .number (args.foldl (fun total value => total + heap.toNumber value) 0.0)

def first : HostFunction := fun _ _ args => return arg args 0

def allArguments : HostFunction := fun _ _ args => Eval.newArray args

def receiver : HostFunction := fun _ this _ => return this

def log : HostFunction := fun _ _ args => do
  Eval.note (arg args 0)
  return arg args 0

def failWith (kind : ErrorKind) (fallback : String) : HostFunction := fun _ _ args => do
  Eval.raise (.host kind (← textArgument fallback args)) {}

def store (this : Value) (key : String) (value : Value) : Eval Unit :=
  Eval.writeProperty {} this key value

def point : HostFunction := fun _ this args => do
  store this "x" (arg args 0)
  store this "y" (arg args 1)
  return .undefined

def countArguments : HostFunction := fun _ _ args => return .number (Float.ofNat args.length)

def tag : HostFunction := fun _ _ args => do
  let raw ← Eval.readProperty {} (arg args 0) "raw"
  let others ← Eval.newArray (args.drop 1)
  Eval.newArray [arg args 0, raw, others]

def callWith : HostFunction := fun call _ args =>
  Eval.callAny call (arg args 0) (arg args 1) (args.drop 2)

def mapItems (call : Caller) (function : Value) (index : Nat) :
    List Value → Eval (List Value)
  | [] => return []
  | item :: items => do
    let result ←
      Eval.callAny call function .undefined [item, .number (Float.ofNat index)]
    return result :: (← mapItems call function (index + 1) items)

def map : HostFunction := fun call _ args => do
  let items ← Eval.spreadValues {} (arg args 0)
  Eval.newArray (← mapItems call (arg args 1) 0 items)

def keys : HostFunction := fun _ _ args => do
  let entries ← Eval.inspect fun heap => heap.ownEntries (arg args 0)
  Eval.newArray (entries.map fun (key, _) => .string key)

def same : HostFunction := fun _ _ args =>
  Eval.inspect fun heap => .boolean (heap.structuralEqual (arg args 0) (arg args 1))

def host : Host := fun key =>
  match key with
  | "sum" => some sum
  | "id" => some first
  | "args" => some allArguments
  | "self" => some receiver
  | "log" => some log
  | "fail" => some (failWith .typeError "boom")
  | "range" => some (failWith .rangeError "range")
  | "Point" => some point
  | "Ret" => some first
  | "plain" => some countArguments
  | "tag" => some tag
  | "call" => some callWith
  | "map" => some map
  | "keys" => some keys
  | "same" => some same
  | _ => none

def isConstructible (key : String) : Bool := key != "plain"

def functionValue (key : String) : Eval Value := do
  let function := { name := key, body := .native key, constructible := isConstructible key }
  return .function (← Eval.allocate fun heap => heap.newFunction function)

end ExprScript.Library
