import ExprScript.Token.Basic
import ExprScript.Tree.Precedence

/-!
Binary operators by precedence climbing. Operands and operators wait on two
stacks; an operator is reduced as soon as one follows that does not bind
tighter.
-/

namespace ExprScript

/-- How tightly the operator of a token binds, or zero for a token that is no
operator between operands. The power operator is left out: it associates to the
right and has a rule of its own. -/
def binaryPrecedence : TokenKind → Nat
  | .punctuator mark =>
    match mark with
    | .questionQuestion | .pipePipe => 1
    | .ampersandAmpersand => 2
    | .pipe => 3
    | .caret => 4
    | .ampersand => 5
    | .equalEqual | .bangEqual | .equalEqualEqual | .bangEqualEqual => 6
    | .less | .greater | .lessEqual | .greaterEqual => 7
    | .lessLess | .greaterGreater | .greaterGreaterGreater => 8
    | .plus | .minus => 9
    | .star | .slash | .percent => 11
    | _ => 0
  | .keyword .inWord | .keyword .instanceofWord => 7
  | _ => 0

def LogicalOp.ofToken? : TokenKind → Option LogicalOp
  | .punctuator .ampersandAmpersand => some .and
  | .punctuator .pipePipe => some .or
  | .punctuator .questionQuestion => some .nullish
  | _ => none

def BinaryOp.ofToken? : TokenKind → Option BinaryOp
  | .punctuator mark =>
    match mark with
    | .equalEqual => some .equal
    | .bangEqual => some .notEqual
    | .equalEqualEqual => some .strictEqual
    | .bangEqualEqual => some .strictNotEqual
    | .less => some .less
    | .lessEqual => some .lessEqual
    | .greater => some .greater
    | .greaterEqual => some .greaterEqual
    | .lessLess => some (.arithmetic .shiftLeft)
    | .greaterGreater => some (.arithmetic .shiftRight)
    | .greaterGreaterGreater => some (.arithmetic .shiftRightUnsigned)
    | .plus => some (.arithmetic .add)
    | .minus => some (.arithmetic .sub)
    | .star => some (.arithmetic .mul)
    | .slash => some (.arithmetic .div)
    | .percent => some (.arithmetic .rem)
    | .pipe => some (.arithmetic .bitOr)
    | .caret => some (.arithmetic .bitXor)
    | .ampersand => some (.arithmetic .bitAnd)
    | _ => none
  | .keyword .inWord => some .isIn
  | .keyword .instanceofWord => some .isInstance
  | _ => none

structure PendingOperator where
  kind : TokenKind
  precedence : Nat
  position : Position

/-- Joins two operands. The nullish operator and the other logical operators
may be mixed only with parentheses. -/
def PendingOperator.join (pending : PendingOperator) (left right : Expr) : Except Error Expr :=
  let loc := left.loc.join right.loc
  match LogicalOp.ofToken? pending.kind with
  | some op =>
    if op.conflictsWith left || op.conflictsWith right then
      .error { cause := .mixedNullish, position := pending.position }
    else .ok (.logical loc op left right)
  | none =>
    match BinaryOp.ofToken? pending.kind with
    | some op => .ok (.binary loc op left right)
    | none => .error { cause := .unexpectedOperator, position := pending.position }

structure Climb where
  operands : List Expr
  operators : List PendingOperator := []

namespace Climb

def reduceTop (operands : List Expr) (pending : PendingOperator) : Except Error (List Expr) :=
  match operands with
  | right :: left :: others => do return (← pending.join left right) :: others
  | _ => .error { cause := .missingOperand, position := pending.position }

/-- Reduces the operators on the stack that bind at least as tightly as
`precedence`. -/
def reduceFrom (precedence : Nat) : List PendingOperator → List Expr → Except Error Climb
  | [], operands => .ok { operands }
  | top :: operators, operands =>
    if top.precedence < precedence then .ok { operands, operators := top :: operators }
    else do reduceFrom precedence operators (← reduceTop operands top)

def shift (climb : Climb) (pending : PendingOperator) : Except Error Climb := do
  let reduced ← reduceFrom pending.precedence climb.operators climb.operands
  return { reduced with operators := pending :: reduced.operators }

def push (climb : Climb) (operand : Expr) : Climb :=
  { climb with operands := operand :: climb.operands }

def finish (climb : Climb) (position : Position) : Except Error Expr := do
  let reduced ← reduceFrom 0 climb.operators climb.operands
  match reduced.operands with
  | result :: _ => return result
  | [] => throw { cause := .missingOperand, position }

end Climb

end ExprScript
