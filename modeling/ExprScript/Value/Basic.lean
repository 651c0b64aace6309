/-!
The values of the language. Arrays, objects, functions and regular expressions
are references into a heap, so that they can be shared and told apart.
-/

namespace ExprScript

/-- The place of an array in the heap. -/
structure ArrayRef where
  index : Nat
deriving DecidableEq, Repr

structure ObjectRef where
  index : Nat
deriving DecidableEq, Repr

/-- The place of a function in the heap. -/
structure FunctionRef where
  index : Nat
deriving DecidableEq, Repr

structure RegExpRef where
  index : Nat
deriving DecidableEq, Repr

inductive Value where
  | undefined
  | null
  | boolean (value : Bool)
  | number (value : Float)
  | string (value : String)
  | array (ref : ArrayRef)
  | object (ref : ObjectRef)
  | function (ref : FunctionRef)
  | regExp (ref : RegExpRef)
deriving Inhabited

namespace Value

def isUndefined : Value → Bool
  | .undefined => true
  | _ => false

def isNull : Value → Bool
  | .null => true
  | _ => false

def isNullish : Value → Bool
  | .undefined | .null => true
  | _ => false

def isNumber : Value → Bool
  | .number _ => true
  | _ => false

def isString : Value → Bool
  | .string _ => true
  | _ => false

def isObjectLike : Value → Bool
  | .array _ | .object _ | .function _ | .regExp _ => true
  | _ => false

def isCallable : Value → Bool
  | .function _ => true
  | _ => false

def typeName : Value → String
  | .undefined => "undefined"
  | .null | .array _ | .object _ | .regExp _ => "object"
  | .boolean _ => "boolean"
  | .number _ => "number"
  | .string _ => "string"
  | .function _ => "function"

def toBoolean : Value → Bool
  | .undefined | .null => false
  | .boolean value => value
  | .number value => !value.isNaN && value != 0.0
  | .string value => value != ""
  | .array _ | .object _ | .function _ | .regExp _ => true

end Value

/-- A value that has parts of its own. Walks over values keep a stack of the
containers that they are inside of. -/
inductive Container where
  | array (ref : ArrayRef)
  | object (ref : ObjectRef)
deriving DecidableEq, Repr

end ExprScript
