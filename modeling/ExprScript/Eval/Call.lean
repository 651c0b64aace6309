import ExprScript.Eval.Basic

/-!
Calling functions, and the entry points of evaluation. Functions of the host
are looked up by their key and may call back.
-/

namespace ExprScript

/-- A function of the host. It gets a way to call back, the receiver and the
arguments. -/
abbrev HostFunction := Caller → Value → List Value → Eval Value

/-- The functions that the host offers. -/
abbrev Host := String → Option HostFunction

namespace Eval

/-- Binds the parameters of a function in the innermost frame of its scope, one
after the other, so that a default sees the parameters before it. -/
def bindParams (context : Context) (path : Path) (index : Nat) (args : List Value) :
    List Pattern → Eval Unit
  | [] => return
  | param :: params => do
    let (target, targetPath, value) ←
      match param with
      | .rest _ argument => pure (argument, Edge.inner :: .param index :: path, ← newArray args)
      | _ => pure (param, Edge.param index :: path, args.head?.getD .undefined)
    let bindings ← bind context targetPath {} value target
    modifyHeap fun heap =>
      bindings.entries.foldl (fun heap (name, bound) => heap.define context.scope name bound) heap
    bindParams context path (index + 1) args.tail params

/-- Calls an arrow function: its parameters are bound in a new frame, and its
body is evaluated anew every time. -/
def callClosure (call : Caller) (closure : Closure) (args : List Value) : Eval Value := do
  let scope ← allocate fun heap => heap.newChild closure.scope {}
  let context : Context := { call, scope, useMemo := false, tree := closure.tree }
  bindParams context closure.path 0 args closure.params
  valueOf (eval context .value (.body :: closure.path) closure.body)

/-- Calls a function. At most `depth` calls may be inside of each other. -/
def callFunction (host : Host) : Nat → Caller
  | 0, _, _, _ => throw .exhausted
  | depth + 1, ref, this, args => do
    match (← inspect fun heap => heap.function ref).body with
    | .arrow closure => callClosure (callFunction host depth) closure args
    | .native key =>
      match host key with
      | some function => function (callFunction host depth) this args
      | none => raise (.notDefined key) {}

def callDepth : Nat := 100000

def callAny (call : Caller) (function this : Value) (args : List Value) : Eval Value :=
  match function with
  | .function ref => call ref this args
  | _ => raise (.notFunction function.typeName) {}

def rootContext (host : Host) (scope : Scope) (useMemo : Bool) (tree : Nat) : Context :=
  { call := callFunction host callDepth, scope, useMemo, tree }

def evaluate (host : Host) (tree : Nat) (expr : Expr) (scope : Scope) (useMemo : Bool) :
    Eval Value :=
  valueOf (eval (rootContext host scope useMemo tree) .value [] expr)

def bindPattern (host : Host) (tree : Nat) (pattern : Pattern) (value : Value) (scope : Scope)
    (seed : Record) (useMemo : Bool) : Eval Record :=
  bind (rootContext host scope useMemo tree) [] seed value pattern

end Eval

end ExprScript
