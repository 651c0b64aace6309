import ExprScript.Eval.Property
import ExprScript.Number.Remainder
import ExprScript.Number.Word
import ExprScript.Value.Equality

/-!
Operators on values.
-/

namespace ExprScript

namespace Number

/-- A power. An exponent that is not a number gives NaN even for the base one,
and so does an infinite exponent of plus or minus one. -/
def power (base exponent : Float) : Float :=
  let isUnit := base == 1.0 || base == -1.0
  if exponent.isNaN || (isUnit && exponent.isInf) then nan else base.pow exponent

def arithmetic (op : ArithmeticOp) (left right : Float) : Float :=
  match op with
  | .add => left + right
  | .sub => left - right
  | .mul => left * right
  | .div => left / right
  | .rem => remainder left right
  | .exp => power left right
  | .bitAnd => ofSigned (toSigned left &&& toSigned right)
  | .bitOr => ofSigned (toSigned left ||| toSigned right)
  | .bitXor => ofSigned (toSigned left ^^^ toSigned right)
  | .shiftLeft => ofSigned (toSigned left <<< (shiftCount right).toInt32)
  | .shiftRight => ofSigned (toSigned left >>> (shiftCount right).toInt32)
  | .shiftRightUnsigned => ofUnsigned (toUnsigned left >>> shiftCount right)

end Number

namespace Heap

def add (heap : Heap) (left right : Value) : Value :=
  let left := heap.toPrimitive left
  let right := heap.toPrimitive right
  if left.isString || right.isString then .string (heap.toText left ++ heap.toText right)
  else .number (heap.toNumber left + heap.toNumber right)

def arithmetic (heap : Heap) (op : ArithmeticOp) (left right : Value) : Value :=
  match op with
  | .add => heap.add left right
  | _ => .number (Number.arithmetic op (heap.toNumber left) (heap.toNumber right))

def instanceOf (heap : Heap) (value creator : Value) : Except Error Bool :=
  match creator with
  | .function function =>
    match value with
    | .object ref => .ok ((heap.object ref).constructor? == some function)
    | _ => .ok false
  | _ => fail .notCallable

def binary (heap : Heap) (op : BinaryOp) (left right : Value) : Except Error Value :=
  match op with
  | .arithmetic op => .ok (heap.arithmetic op left right)
  | .equal => .ok (.boolean (heap.looseEqual left right))
  | .notEqual => .ok (.boolean (!heap.looseEqual left right))
  | .strictEqual => .ok (.boolean (left.strictEqual right))
  | .strictNotEqual => .ok (.boolean (!left.strictEqual right))
  | .less => .ok (.boolean (heap.compare? left right == some .lt))
  | .greater => .ok (.boolean (heap.compare? left right == some .gt))
  | .lessEqual => .ok (.boolean ((heap.compare? left right).any (·.isLE)))
  | .greaterEqual => .ok (.boolean ((heap.compare? left right).any (·.isGE)))
  | .isIn => do return .boolean (← heap.hasProperty right (heap.toPropertyKey left))
  | .isInstance => do return .boolean (← heap.instanceOf left right)

def unary (heap : Heap) (op : UnaryOp) (value : Value) : Value :=
  match op with
  | .minus => .number (-heap.toNumber value)
  | .plus => .number (heap.toNumber value)
  | .not => .boolean (!value.toBoolean)
  | .bitNot => .number (Number.ofSigned (~~~Number.toSigned (heap.toNumber value)))
  | .typeof => .string value.typeName
  | .void => .undefined

end Heap

def LogicalOp.isDecidedBy (op : LogicalOp) (left : Value) : Bool :=
  match op with
  | .and => !left.toBoolean
  | .or => left.toBoolean
  | .nullish => !left.isNullish

def UpdateOp.apply (op : UpdateOp) (number : Float) : Float :=
  match op with
  | .increment => number + 1.0
  | .decrement => number - 1.0

end ExprScript
