/-!
The operators of the language and their spelling.
-/

namespace ExprScript

inductive UnaryOp where
  | minus
  | plus
  | not
  | bitNot
  | typeof
  | void
deriving DecidableEq, Repr

namespace UnaryOp

def spelling : UnaryOp → String
  | .minus => "-"
  | .plus => "+"
  | .not => "!"
  | .bitNot => "~"
  | .typeof => "typeof"
  | .void => "void"

def all : List UnaryOp := [.minus, .plus, .not, .bitNot, .typeof, .void]

end UnaryOp

inductive UpdateOp where
  | increment
  | decrement
deriving DecidableEq, Repr

namespace UpdateOp

def spelling : UpdateOp → String
  | .increment => "++"
  | .decrement => "--"

def all : List UpdateOp := [.increment, .decrement]

end UpdateOp

inductive Fixity where
  | before
  | after
deriving DecidableEq, Repr

/-- The operators that also have a form that assigns. -/
inductive ArithmeticOp where
  | add
  | sub
  | mul
  | div
  | rem
  | exp
  | shiftLeft
  | shiftRight
  | shiftRightUnsigned
  | bitOr
  | bitXor
  | bitAnd
deriving DecidableEq, Repr

namespace ArithmeticOp

def spelling : ArithmeticOp → String
  | .add => "+"
  | .sub => "-"
  | .mul => "*"
  | .div => "/"
  | .rem => "%"
  | .exp => "**"
  | .shiftLeft => "<<"
  | .shiftRight => ">>"
  | .shiftRightUnsigned => ">>>"
  | .bitOr => "|"
  | .bitXor => "^"
  | .bitAnd => "&"

def all : List ArithmeticOp :=
  [.add, .sub, .mul, .div, .rem, .exp, .shiftLeft, .shiftRight, .shiftRightUnsigned, .bitOr,
   .bitXor, .bitAnd]

end ArithmeticOp

inductive BinaryOp where
  | arithmetic (op : ArithmeticOp)
  | equal
  | notEqual
  | strictEqual
  | strictNotEqual
  | less
  | lessEqual
  | greater
  | greaterEqual
  | isIn
  | isInstance
deriving DecidableEq, Repr

namespace BinaryOp

def spelling : BinaryOp → String
  | .arithmetic op => op.spelling
  | .equal => "=="
  | .notEqual => "!="
  | .strictEqual => "==="
  | .strictNotEqual => "!=="
  | .less => "<"
  | .lessEqual => "<="
  | .greater => ">"
  | .greaterEqual => ">="
  | .isIn => "in"
  | .isInstance => "instanceof"

def all : List BinaryOp :=
  ArithmeticOp.all.map arithmetic ++
    [.equal, .notEqual, .strictEqual, .strictNotEqual, .less, .lessEqual, .greater,
     .greaterEqual, .isIn, .isInstance]

end BinaryOp

/-- The operators that evaluate their right operand only if they need it. -/
inductive LogicalOp where
  | and
  | or
  | nullish
deriving DecidableEq, Repr

namespace LogicalOp

def spelling : LogicalOp → String
  | .and => "&&"
  | .or => "||"
  | .nullish => "??"

def all : List LogicalOp := [.and, .or, .nullish]

/-- The nullish operator and the two others may be mixed only with
parentheses. -/
def sameFamily (first second : LogicalOp) : Bool :=
  (first == .nullish) == (second == .nullish)

end LogicalOp

inductive AssignOp where
  | plain
  | arithmetic (op : ArithmeticOp)
  | logical (op : LogicalOp)
deriving DecidableEq, Repr

namespace AssignOp

def spelling : AssignOp → String
  | .plain => "="
  | .arithmetic op => op.spelling ++ "="
  | .logical op => op.spelling ++ "="

def all : List AssignOp :=
  plain :: ArithmeticOp.all.map arithmetic ++ LogicalOp.all.map logical

end AssignOp

end ExprScript
