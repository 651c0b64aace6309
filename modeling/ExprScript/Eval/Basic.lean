import ExprScript.Eval.Operator
import ExprScript.Eval.World

/-!
Evaluation of expressions. The recursion follows the tree; calls of functions
go through a parameter, so that only nested calls need a bound.

A chain of members and calls is evaluated link by link. An optional link that
meets nothing ends the whole chain, up to the nearest parentheses.
-/

namespace ExprScript

/-- How functions are called. -/
abbrev Caller := FunctionRef → Value → List Value → Eval Value

/-- Where an expression is evaluated. -/
structure Context where
  call : Caller
  scope : Scope
  /-- Whether remembered results are used. They are kept up to date always. -/
  useMemo : Bool
  /-- The number of the tree that the expression belongs to. -/
  tree : Nat

/-- What an expression is evaluated for. -/
inductive Use where
  | value
  /-- The object of a link, or a callee that needs no receiver. -/
  | link
  | callee
deriving DecidableEq, Repr

/-- The result of an expression: a value and the receiver of a call of it.
There is none if an optional link met nothing. -/
abbrev Outcome := Option (Value × Value)

inductive Reference where
  | name (id : Ident)
  | property (object : Value) (key : String) (position : Position)

namespace Eval

def plain (value : Value) : Outcome := some (.undefined, value)

def valueOf (action : Eval Outcome) : Eval Value :=
  return ((← action).map (·.2)).getD .undefined

/-- Uses the remembered result of a node, if that is wanted and there is one,
and remembers a new one otherwise. -/
def memoized (context : Context) (path : Path) (action : Eval Value) : Eval Value := do
  let node : NodeId := { tree := context.tree, path }
  let memo := (← get).memo
  match if context.useMemo then memo.get? node else none with
  | some value => return value
  | none =>
    let value ← action
    modify fun world => { world with memo := world.memo.set node value }
    return value

def readName (context : Context) (id : Ident) : Eval Value := do
  match ← inspect fun heap => heap.lookup? context.scope id.name with
  | some value => return value
  | none =>
    if id.name == "undefined" then return .undefined
    else raise (.notDefined id.name) id.loc.start

def readProperty (position : Position) (object : Value) (key : String) : Eval Value := do
  anchored position (ofExcept ((← heap).getProperty object key))

def writeProperty (position : Position) (object : Value) (key : String) (value : Value) :
    Eval Unit := do
  setHeap (← anchored position (ofExcept ((← heap).setProperty object key value)))

def applyBinary (position : Position) (op : BinaryOp) (left right : Value) : Eval Value := do
  anchored position (ofExcept ((← heap).binary op left right))

def spreadValues (position : Position) (value : Value) : Eval (List Value) := do
  anchored position (ofExcept ((← heap).iterate value))

def readReference (context : Context) : Reference → Eval Value
  | .name id => readName context id
  | .property object key position => readProperty position object key

def writeReference (context : Context) (reference : Reference) (value : Value) : Eval Unit :=
  match reference with
  | .name id => modifyHeap fun heap => heap.assign context.scope id.name value
  | .property object key position => writeProperty position object key value

def callValue (context : Context) (position : Position) (callee : Expr) (function this : Value)
    (args : List Value) : Eval Value :=
  match function with
  | .function ref => anchored position (context.call ref this args)
  | .undefined => raise (.notDefined callee.print) position
  | _ => raise (.notFunction callee.print) position

def constructValue (context : Context) (position : Position) (callee : Expr) (function : Value)
    (args : List Value) : Eval Value := do
  match function with
  | .function ref =>
    if (← inspect fun heap => heap.function ref).constructible then
      let this ← newObject { constructor? := some ref }
      let result ← anchored position (context.call ref this args)
      return if result.isObjectLike then result else this
    else raise (.notConstructor callee.print) position
  | .undefined => raise (.notDefined callee.print) position
  | _ => raise (.notConstructor callee.print) position

def isUnboundName (heap : Heap) (scope : Scope) (argument : Expr) : Bool :=
  match argument.unparenthesized with
  | .ident id => id.name != "undefined" && !heap.hasName scope id.name
  | _ => false

def templateStrings (quasis : List Quasi) : Eval Value := do
  let raw ← newArray (quasis.map fun quasi => .string quasi.raw)
  let cooked := ArrayStore.ofList (quasis.map fun quasi => .string quasi.cooked)
  return .array (← allocate fun heap => heap.newArray (cooked.setNamed "raw" raw))

def createFunction (context : Context) (path : Path) (params : List Pattern) (body : Expr) :
    Eval Value := do
  let closure := { tree := context.tree, path, params, body, scope := context.scope }
  let function := { name := "", body := .arrow closure, constructible := false }
  return .function (← allocate fun heap => heap.newFunction function)

def nullishTarget {α : Type} (position : Position) (value : Value) : Eval α := do
  raise (.destructureNullish (← inspect fun heap => heap.toText value)) position

/-- The context of defaults and computed keys of a pattern: a new frame shows
the names that the pattern has bound so far. -/
def patternContext (context : Context) (bindings : Record) : Eval Context := do
  let scope ← allocate fun heap => heap.newChild context.scope bindings
  return { context with scope }

mutual

def eval (context : Context) (use : Use) (path : Path) : Expr → Eval Outcome
  | .null _ => return plain .null
  | .boolean _ value => return plain (.boolean value)
  | .number literal => return plain (.number literal.value)
  | .string literal => return plain (.string literal.value)
  | .regExp _ pattern flags => do
    return plain (.regExp (← allocate fun heap => heap.newRegExp { pattern, flags }))
  | .template _ quasis holes => do
    return plain (← memoized context path do
      return .string (← evalTemplate context path 0 quasis holes))
  | .ident id => do return plain (← readName context id)
  | .this _ => do return plain (← inspect fun heap => heap.thisValue context.scope)
  | .array _ elements => do
    return plain (← newArray (← evalElements context path 0 elements))
  | .object _ properties => do
    return plain (← newObject (← evalProperties context path 0 {} properties))
  | .paren _ inner => do
    match use, inner with
    | .callee, .member .. =>
      let outcome ← eval context .callee (.inner :: path) inner
      return outcome.or (plain .undefined)
    | _, _ => return plain (← valueOf (eval context .value (.inner :: path) inner))
  | .arrow _ params body => do return plain (← createFunction context path params body)
  | .unary _ op argument => do
    return plain (← memoized context path do
      if op = .typeof && isUnboundName (← heap) context.scope argument then
        return .string "undefined"
      else
        let value ← valueOf (eval context .value (.inner :: path) argument)
        inspect fun heap => heap.unary op value)
  | .update _ op fixity argument => do
    let reference ← evalReference context (.inner :: path) argument
    let old ← readReference context reference
    let before ← inspect fun heap => heap.toNumber old
    let after := op.apply before
    writeReference context reference (.number after)
    return plain (.number (if fixity = .before then after else before))
  | .binary loc op left right => do
    return plain (← memoized context path do
      let left ← valueOf (eval context .value (.left :: path) left)
      let right ← valueOf (eval context .value (.right :: path) right)
      applyBinary loc.start op left right)
  | .logical _ op left right => do
    return plain (← memoized context path do
      let left ← valueOf (eval context .value (.left :: path) left)
      if op.isDecidedBy left then return left
      else valueOf (eval context .value (.right :: path) right))
  | .conditional _ test consequent alternate => do
    return plain (← memoized context path do
      if (← valueOf (eval context .value (.test :: path) test)).toBoolean then
        valueOf (eval context .value (.consequent :: path) consequent)
      else valueOf (eval context .value (.alternate :: path) alternate))
  | .assign loc op target value => do
    let reference ← evalReference context (.target :: path) target
    match op with
    | .plain =>
      let value ← valueOf (eval context .value (.value :: path) value)
      writeReference context reference value
      return plain value
    | .logical op =>
      let current ← readReference context reference
      if op.isDecidedBy current then return plain current
      else
        let value ← valueOf (eval context .value (.value :: path) value)
        writeReference context reference value
        return plain value
    | .arithmetic op =>
      let current ← readReference context reference
      let right ← valueOf (eval context .value (.value :: path) value)
      let value ← applyBinary loc.start (.arithmetic op) current right
      writeReference context reference value
      return plain value
  | .destructure _ _ pattern value => do
    let value ← valueOf (eval context .value (.value :: path) value)
    let bindings ← bind context (.pattern :: path) {} value pattern
    modifyHeap fun heap =>
      bindings.entries.foldl (fun heap (name, bound) => heap.assign context.scope name bound) heap
    return plain value
  | .sequence _ items => do return plain (← evalSequence context path 0 .undefined items)
  | .member loc owner key optional => do
    let link : Eval Outcome := do
      match ← eval context .link (.object :: path) owner with
      | none => return none
      | some (_, object) =>
        if optional && object.isNullish then return none
        else
          let name ← evalMemberKey context (.key :: path) key
          return some (object, ← readProperty loc.start object name)
    match use with
    | .value => return plain (← memoized context path (valueOf link))
    | .link => return (← link).map fun (_, value) => (.undefined, value)
    | .callee => link
  | .call loc callee args optional => do
    let link : Eval Outcome := do
      match ← eval context .callee (.callee :: path) callee with
      | none => return none
      | some (this, function) =>
        if optional && function.isNullish then return none
        else
          let args ← evalArguments context path 0 args
          return plain (← callValue context loc.start callee function this args)
    match use with
    | .value => return plain (← memoized context path (valueOf link))
    | _ => link
  | .new loc callee args => do
    return plain (← memoized context path do
      let function ← valueOf (eval context .value (.callee :: path) callee)
      let args ← evalArguments context path 0 args
      constructValue context loc.start callee function args)
  | .tagged loc tag _ quasis holes => do
    return plain (← memoized context path do
      let outcome ← eval context .callee (.tag :: path) tag
      let (this, function) := outcome.getD (.undefined, .undefined)
      let strings ← templateStrings quasis
      let values ← evalHoles context path 0 holes
      callValue context loc.start tag function this (strings :: values))
  | .spread loc _ => raise .unexpectedSpread loc.start

/-- What an assignment writes to. The object and the key of a member are
evaluated before the value that is assigned. -/
def evalReference (context : Context) (path : Path) : Expr → Eval Reference
  | .paren _ inner => evalReference context (.inner :: path) inner
  | .ident id => return .name id
  | .member loc owner key _ => do
    let object ← valueOf (eval context .value (.object :: path) owner)
    let name ← evalMemberKey context (.key :: path) key
    return .property object name loc.start
  | expr => raise .invalidAssignmentTarget expr.loc.start

def evalMemberKey (context : Context) (path : Path) : MemberKey → Eval String
  | .name id => return id.name
  | .computed key => do
    let value ← valueOf (eval context .value path key)
    inspect fun heap => heap.toPropertyKey value

def evalPropertyKey (context : Context) (path : Path) : PropertyKey → Eval String
  | .name id => return id.name
  | .string literal => return literal.value
  | .number literal => return Number.toText literal.value
  | .computed key => do
    let value ← valueOf (eval context .value path key)
    inspect fun heap => heap.toPropertyKey value

def evalTemplate (context : Context) (path : Path) (index : Nat) :
    List Quasi → List Expr → Eval String
  | [], _ => return ""
  | quasi :: quasis, [] => return String.join ((quasi :: quasis).map (·.cooked))
  | quasi :: quasis, hole :: holes => do
    let value ← valueOf (eval context .value (.item index :: path) hole)
    let text ← inspect fun heap => heap.toText value
    let rest ← evalTemplate context path (index + 1) quasis holes
    return quasi.cooked ++ text ++ rest

def evalHoles (context : Context) (path : Path) (index : Nat) : List Expr → Eval (List Value)
  | [] => return []
  | hole :: holes => do
    let value ← valueOf (eval context .value (.item index :: path) hole)
    return value :: (← evalHoles context path (index + 1) holes)

def evalSequence (context : Context) (path : Path) (index : Nat) (last : Value) :
    List Expr → Eval Value
  | [] => return last
  | item :: items => do
    let value ← valueOf (eval context .value (.item index :: path) item)
    evalSequence context path (index + 1) value items

def evalArguments (context : Context) (path : Path) (index : Nat) :
    List Expr → Eval (List Value)
  | [] => return []
  | .spread _ argument :: args => do
    let value ← valueOf (eval context .value (.inner :: .item index :: path) argument)
    let values ← spreadValues argument.loc.start value
    return values ++ (← evalArguments context path (index + 1) args)
  | argument :: args => do
    let value ← valueOf (eval context .value (.item index :: path) argument)
    return value :: (← evalArguments context path (index + 1) args)

/-- Elements of an array literal. A hole is an element that is stored as
`undefined`. -/
def evalElements (context : Context) (path : Path) (index : Nat) :
    List (Option Expr) → Eval (List Value)
  | [] => return []
  | none :: elements => do
    return .undefined :: (← evalElements context path (index + 1) elements)
  | some (.spread _ argument) :: elements => do
    let value ← valueOf (eval context .value (.inner :: .item index :: path) argument)
    let values ← spreadValues argument.loc.start value
    return values ++ (← evalElements context path (index + 1) elements)
  | some element :: elements => do
    let value ← valueOf (eval context .value (.item index :: path) element)
    return value :: (← evalElements context path (index + 1) elements)

def evalProperties (context : Context) (path : Path) (index : Nat) (record : Record) :
    List Property → Eval Record
  | [] => return record
  | .field _ key value _ :: properties => do
    let name ← evalPropertyKey context (.key :: .item index :: path) key
    let value ← valueOf (eval context .value (.value :: .item index :: path) value)
    evalProperties context path (index + 1) (record.set name value) properties
  | .spread _ argument :: properties => do
    let value ← valueOf (eval context .value (.inner :: .item index :: path) argument)
    let entries ← inspect fun heap => heap.ownEntries value
    evalProperties context path (index + 1) (record.setAll entries) properties

/-- Takes a value apart by a pattern. The names are added to `bindings`; where
they go is up to the caller. -/
def bind (context : Context) (path : Path) (bindings : Record) (value : Value) :
    Pattern → Eval Record
  | .ident id => return bindings.set id.name value
  | .rest _ argument => bind context (.inner :: path) bindings value argument
  | .withDefault _ target fallback => do
    let value ←
      if value.isUndefined then
        valueOf (eval (← patternContext context bindings) .value (.value :: path) fallback)
      else pure value
    bind context (.target :: path) bindings value target
  | .array loc elements => do
    if value.isNullish then nullishTarget loc.start value
    else
      let items ← spreadValues loc.start value
      bindElements context path 0 bindings items elements
  | .object loc properties => do
    if value.isNullish then nullishTarget loc.start value
    else bindProperties context path 0 bindings value [] properties

def bindElements (context : Context) (path : Path) (index : Nat) (bindings : Record)
    (items : List Value) : List (Option Pattern) → Eval Record
  | [] => return bindings
  | none :: elements => bindElements context path (index + 1) bindings items.tail elements
  | some (.rest _ argument) :: elements => do
    let array ← newArray items
    let bindings ← bind context (.inner :: .item index :: path) bindings array argument
    bindElements context path (index + 1) bindings items.tail elements
  | some element :: elements => do
    let item := items.head?.getD .undefined
    let bindings ← bind context (.item index :: path) bindings item element
    bindElements context path (index + 1) bindings items.tail elements

/-- Takes the properties of a value apart. A rest gets all properties but those
that were taken before. -/
def bindProperties (context : Context) (path : Path) (index : Nat) (bindings : Record)
    (value : Value) (taken : List String) : List PatternProperty → Eval Record
  | [] => return bindings
  | .field loc key pattern _ :: properties => do
    let name ← evalPatternKey context (.key :: .item index :: path) bindings key
    let item ← readProperty loc.start value name
    let bindings ← bind context (.value :: .item index :: path) bindings item pattern
    bindProperties context path (index + 1) bindings value (name :: taken) properties
  | .rest _ argument :: properties => do
    let entries ← inspect fun heap => heap.ownEntries value
    let others ← newObject (.ofEntries (entries.filter fun (key, _) => !taken.contains key))
    let bindings ← bind context (.inner :: .item index :: path) bindings others argument
    bindProperties context path (index + 1) bindings value taken properties

def evalPatternKey (context : Context) (path : Path) (bindings : Record) :
    PropertyKey → Eval String
  | .name id => return id.name
  | .string literal => return literal.value
  | .number literal => return Number.toText literal.value
  | .computed key => do
    let value ← valueOf (eval (← patternContext context bindings) .value path key)
    inspect fun heap => heap.toPropertyKey value

end

end Eval

end ExprScript
