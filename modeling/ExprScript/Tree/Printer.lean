import ExprScript.Number.Layout
import ExprScript.Text.Quote
import ExprScript.Tree.Precedence

/-!
The text of expressions and patterns. Parentheses of the source are nodes of
the tree and are always printed; others are added where an operand binds less
tightly than its place demands.
-/

namespace ExprScript

def group (needed : Bool) (text : String) : String :=
  if needed then "(" ++ text ++ ")" else text

/-- A number as it is printed in a tree. The numbers that have no literal are
printed as divisions. -/
def Number.print (value : Float) : String :=
  if value.isNaN then "0 / 0"
  else if value.isInf then (if Number.hasSign value then "-1 / 0" else "1 / 0")
  else Number.toText value

def weave : List String → List String → String
  | [], _ => ""
  | piece :: pieces, [] => piece ++ weave pieces []
  | piece :: pieces, hole :: holes => piece ++ "$\x7b" ++ hole ++ "\x7d" ++ weave pieces holes

def printTemplate (quasis : List Quasi) (holes : List String) : String :=
  "\x60" ++ weave (quasis.map (·.raw)) holes ++ "\x60"

def printBraced (members : List String) : String :=
  if members.isEmpty then "\x7b\x7d" else "\x7b " ++ ", ".intercalate members ++ " \x7d"

def printBracketed (elements : List String) (endsInHole : Bool) : String :=
  "[" ++ ", ".intercalate elements ++ (if endsInHole then "," else "") ++ "]"

def startsWith (text : String) (c : Char) : Bool := text.toList.head? == some c

def UnaryOp.spaceBefore (op : UnaryOp) (operand : String) : Bool :=
  match op with
  | .typeof | .void => true
  | .minus => startsWith operand '-'
  | .plus => startsWith operand '+'
  | .not | .bitNot => false

def endsInHole {α : Type} (elements : List (Option α)) : Bool :=
  match elements.getLast? with
  | some none => true
  | _ => false

mutual

def Expr.print : Expr → String
  | .null _ => "null"
  | .boolean _ value => if value then "true" else "false"
  | .number literal => Number.print literal.value
  | .string literal => Text.quoteLiteral literal.value
  | .regExp _ pattern flags => "/" ++ pattern ++ "/" ++ flags
  | .template _ quasis holes => printTemplate quasis (printHoles holes)
  | .ident id => id.name
  | .this _ => "this"
  | .paren _ inner => "(" ++ inner.print ++ ")"
  | .array _ elements => printBracketed (printElements elements) (endsInHole elements)
  | .object _ properties => printBraced (printProperties properties)
  | .arrow _ params body =>
    let text := group (body.precedence < Precedence.assignment) body.print
    "(" ++ ", ".intercalate (printPatterns params) ++ ") => " ++
      group (startsWith text '\x7b') text
  | .unary _ op argument =>
    let operand := group (argument.precedence < Precedence.unary) argument.print
    op.spelling ++ (if op.spaceBefore operand then " " else "") ++ operand
  | .update _ op .before argument =>
    op.spelling ++ group (argument.precedence < Precedence.unary) argument.print
  | .update _ op .after argument =>
    group (argument.precedence < Precedence.call) argument.print ++ op.spelling
  | .binary _ op left right =>
    if op = .arithmetic .exp then
      group (left.precedence < Precedence.postfixed) left.print ++ " " ++ op.spelling ++ " " ++
        group (right.precedence < op.precedence) right.print
    else
      group (left.precedence < op.precedence) left.print ++ " " ++ op.spelling ++ " " ++
        group (right.precedence < op.precedence + 1) right.print
  | .logical _ op left right =>
    group (op.conflictsWith left || left.precedence < op.precedence) left.print ++
      " " ++ op.spelling ++ " " ++
      group (op.conflictsWith right || right.precedence < op.precedence + 1) right.print
  | .conditional _ test consequent alternate =>
    group (test.precedence < Precedence.nullishOr) test.print ++ " ? " ++
      group (consequent.precedence < Precedence.assignment) consequent.print ++ " : " ++
      group (alternate.precedence < Precedence.assignment) alternate.print
  | .assign _ op target value =>
    group (target.precedence < Precedence.call) target.print ++ " " ++ op.spelling ++ " " ++
      group (value.precedence < Precedence.assignment) value.print
  | .destructure _ op pattern value =>
    pattern.print ++ " " ++ op.spelling ++ " " ++
      group (value.precedence < Precedence.assignment) value.print
  | .sequence _ items => ", ".intercalate (printItems items)
  | .member _ owner key optional =>
    let isNumber := match owner with
      | .number _ => true
      | _ => false
    match key with
    | .name id =>
      group (isNumber || owner.precedence < Precedence.call) owner.print ++
        (if optional then "?." else ".") ++ id.name
    | .computed key =>
      group (owner.precedence < Precedence.call) owner.print ++
        (if optional then "?." else "") ++ "[" ++ key.print ++ "]"
  | .call _ callee arguments optional =>
    group (callee.precedence < Precedence.call) callee.print ++
      (if optional then "?.(" else "(") ++ ", ".intercalate (printItems arguments) ++ ")"
  | .new _ callee arguments =>
    "new " ++ group (callee.callsBeforeNew || callee.precedence < Precedence.call) callee.print ++
      "(" ++ ", ".intercalate (printItems arguments) ++ ")"
  | .tagged _ tag _ quasis holes =>
    group (tag.isOptionalChain || tag.precedence < Precedence.call) tag.print ++
      printTemplate quasis (printHoles holes)
  | .spread _ argument =>
    "..." ++ group (argument.precedence < Precedence.assignment) argument.print

def printHoles : List Expr → List String
  | [] => []
  | hole :: holes => hole.print :: printHoles holes

def printItems : List Expr → List String
  | [] => []
  | item :: items =>
    group (item.precedence < Precedence.assignment) item.print :: printItems items

def printElements : List (Option Expr) → List String
  | [] => []
  | none :: elements => "" :: printElements elements
  | some item :: elements =>
    group (item.precedence < Precedence.assignment) item.print :: printElements elements

def printProperties : List Property → List String
  | [] => []
  | .spread _ argument :: properties =>
    ("..." ++ group (argument.precedence < Precedence.assignment) argument.print) ::
      printProperties properties
  | .field _ key value shorthand :: properties =>
    let text := group (value.precedence < Precedence.assignment) value.print
    (if shorthand then text else key.print ++ ": " ++ text) :: printProperties properties

def PropertyKey.print : PropertyKey → String
  | .name id => id.name
  | .string literal => Text.quoteLiteral literal.value
  | .number literal => Number.print literal.value
  | .computed key => "[" ++ group (key.precedence < Precedence.assignment) key.print ++ "]"

def Pattern.print : Pattern → String
  | .ident id => id.name
  | .array _ elements => printBracketed (printPatternElements elements) (endsInHole elements)
  | .object _ properties => printBraced (printPatternProperties properties)
  | .rest _ argument => "..." ++ argument.print
  | .withDefault _ target value =>
    target.print ++ " = " ++ group (value.precedence < Precedence.assignment) value.print

def printPatterns : List Pattern → List String
  | [] => []
  | pattern :: patterns => pattern.print :: printPatterns patterns

def printPatternElements : List (Option Pattern) → List String
  | [] => []
  | none :: elements => "" :: printPatternElements elements
  | some pattern :: elements => pattern.print :: printPatternElements elements

def printPatternProperties : List PatternProperty → List String
  | [] => []
  | .rest _ argument :: properties =>
    ("..." ++ argument.print) :: printPatternProperties properties
  | .field _ key value shorthand :: properties =>
    (if shorthand then value.print else key.print ++ ": " ++ value.print) ::
      printPatternProperties properties

end

end ExprScript
