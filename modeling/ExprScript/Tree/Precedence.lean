import ExprScript.Number.Dyadic
import ExprScript.Tree.Basic

/-!
How tightly the printed form of an expression binds. The higher the level, the
tighter.
-/

namespace ExprScript

namespace Precedence

abbrev sequence : Nat := 1
abbrev assignment : Nat := 2
abbrev conditional : Nat := 3
abbrev nullishOr : Nat := 4
abbrev and : Nat := 5
abbrev bitOr : Nat := 6
abbrev bitXor : Nat := 7
abbrev bitAnd : Nat := 8
abbrev equality : Nat := 9
abbrev relational : Nat := 10
abbrev shift : Nat := 11
abbrev additive : Nat := 12
abbrev multiplicative : Nat := 13
abbrev exponent : Nat := 14
abbrev unary : Nat := 15
abbrev postfixed : Nat := 16
abbrev call : Nat := 18
abbrev primary : Nat := 19

end Precedence

def ArithmeticOp.precedence : ArithmeticOp → Nat
  | .bitOr => Precedence.bitOr
  | .bitXor => Precedence.bitXor
  | .bitAnd => Precedence.bitAnd
  | .shiftLeft | .shiftRight | .shiftRightUnsigned => Precedence.shift
  | .add | .sub => Precedence.additive
  | .mul | .div | .rem => Precedence.multiplicative
  | .exp => Precedence.exponent

def BinaryOp.precedence : BinaryOp → Nat
  | .arithmetic op => op.precedence
  | .equal | .notEqual | .strictEqual | .strictNotEqual => Precedence.equality
  | .less | .lessEqual | .greater | .greaterEqual | .isIn | .isInstance =>
    Precedence.relational

def LogicalOp.precedence : LogicalOp → Nat
  | .and => Precedence.and
  | .or | .nullish => Precedence.nullishOr

/-- A negative number is printed with a minus sign and binds like a unary
operator; a number that is not finite is printed as a division. -/
def Number.precedence (value : Float) : Nat :=
  if !value.isFinite then Precedence.multiplicative
  else if Number.hasSign value then Precedence.unary
  else Precedence.primary

def Expr.precedence : Expr → Nat
  | .sequence .. => Precedence.sequence
  | .assign .. | .destructure .. | .arrow .. | .spread .. => Precedence.assignment
  | .conditional .. => Precedence.conditional
  | .logical _ op _ _ => op.precedence
  | .binary _ op _ _ => op.precedence
  | .unary .. => Precedence.unary
  | .update _ _ .before _ => Precedence.unary
  | .update _ _ .after _ => Precedence.postfixed
  | .member .. | .call .. | .new .. | .tagged .. => Precedence.call
  | .number literal => Number.precedence literal.value
  | _ => Precedence.primary

/-- Whether an operand of a logical operator is an operation of the other
family, which has to stand in parentheses. -/
def LogicalOp.conflictsWith (op : LogicalOp) : Expr → Bool
  | .logical _ inner _ _ => !op.sameFamily inner
  | _ => false

end ExprScript
