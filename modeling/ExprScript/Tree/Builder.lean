import ExprScript.Grammar.Literal
import ExprScript.Number.Layout
import ExprScript.Tree.Precedence

/-!
Building trees without a source text. Every operand that would be read in
another way is put in parentheses, and what cannot be written is refused.
-/

namespace ExprScript.Build

def refuse {α : Type} (cause : Cause) : Except Error α := .error { cause }

def parenthesized (expr : Expr) : Expr := .paren {} expr

def operand (needed : Bool) (expr : Expr) : Expr :=
  if needed then parenthesized expr else expr

def item (expr : Expr) : Expr := operand (expr.precedence < Precedence.assignment) expr

def null : Expr := .null {}

def boolean (value : Bool) : Expr := .boolean {} value

def number (value : Float) : Expr := .number { value, raw := Number.toText value }

def string (value : String) : Expr := .string { value }

def this : Expr := .this {}

def regExp (pattern flags : String) : Except Error Expr := do
  match pattern.toList with
  | [] | '*' :: _ => refuse .invalidRegExpPattern
  | _ =>
    Parse.checkRegExpFlags flags {}
    return .regExp {} pattern flags

def soleToken? (text : String) : Option Token :=
  match tokenize text with
  | .ok [token] => if token.raw == text then some token else none
  | _ => none

def isIdentifier (name : String) : Bool :=
  (soleToken? name).any fun token => token.kind == .identifier

def isPropertyName (name : String) : Bool := (soleToken? name).any Token.isName

def identifier (name : String) : Except Error Expr :=
  if isIdentifier name then .ok (.ident { name }) else refuse (.invalidIdentifier name)

def escapeTemplate : List Char → List Char
  | [] => []
  | c :: rest =>
    let written :=
      if c == '\x60' then ['\\', '\x60']
      else if c == '\\' then ['\\', '\\']
      else if c == '$' && rest.head? == some '\x7b' then ['\\', '$']
      else if c == '\r' then ['\\', 'r']
      else [c]
    written ++ escapeTemplate rest

def quasis : List String → List Quasi
  | [] => []
  | cooked :: rest =>
    { cooked, raw := String.ofList (escapeTemplate cooked.toList), tail := rest.isEmpty } ::
      quasis rest

def templateQuasis (pieces : List String) (holes : List Expr) : Except Error (List Quasi) :=
  if pieces.length = holes.length + 1 then .ok (quasis pieces) else refuse .templateShape

def template (pieces : List String) (holes : List Expr) : Except Error Expr := do
  return .template {} (← templateQuasis pieces holes) holes

/-- A binary operation. Powers associate to the right and take no unary
operation as their base. -/
def binary (op : BinaryOp) (left right : Expr) : Expr :=
  if op = .arithmetic .exp then
    .binary {} op (operand (left.precedence ≤ Precedence.unary) left)
      (operand (right.precedence < Precedence.exponent) right)
  else
    .binary {} op (operand (left.precedence < op.precedence) left)
      (operand (right.precedence ≤ op.precedence) right)

def logical (op : LogicalOp) (left right : Expr) : Expr :=
  .logical {} op
    (operand (left.precedence < op.precedence || op.conflictsWith left) left)
    (operand (right.precedence ≤ op.precedence || op.conflictsWith right) right)

def unary (op : UnaryOp) (argument : Expr) : Expr :=
  .unary {} op (operand (argument.precedence < Precedence.unary) argument)

def update (op : UpdateOp) (fixity : Fixity) (argument : Expr) : Except Error Expr :=
  if argument.isSimpleTarget then .ok (.update {} op fixity argument)
  else
    match fixity with
    | .before => refuse .invalidPrefixTarget
    | .after => refuse .invalidPostfixTarget

def conditional (test consequent alternate : Expr) : Expr :=
  .conditional {} (operand (test.precedence ≤ Precedence.conditional) test) (item consequent)
    (item alternate)

def assign (op : AssignOp) (target value : Expr) : Except Error Expr :=
  if target.isSimpleTarget then .ok (.assign {} op target (item value))
  else refuse .invalidAssignmentTarget

def destructure (pattern : Pattern) (value : Expr) : Expr :=
  .destructure {} .plain pattern (item value)

def sequence : List Expr → Except Error Expr
  | [] => refuse .emptySequence
  | [single] => .ok single
  | items => .ok (.sequence {} (items.map item))

/-- The object of a member or the callee of a call. A number takes parentheses,
because it would swallow the point after it. -/
def chainStart (expr : Expr) : Expr :=
  operand (expr.precedence < Precedence.call || expr.kind == .numericLiteral) expr

def member (owner : Expr) (name : String) (optional : Bool) : Except Error Expr :=
  if isPropertyName name then
    .ok (.member {} (chainStart owner) (.name { name }) optional)
  else refuse (.invalidPropertyName name)

def computedMember (owner key : Expr) (optional : Bool) : Expr :=
  .member {} (chainStart owner) (.computed key) optional

def call (callee : Expr) (arguments : List Expr) (optional : Bool) : Expr :=
  .call {} (chainStart callee) (arguments.map item) optional

def new (callee : Expr) (arguments : List Expr) : Except Error Expr :=
  if callee.isOptionalChain then refuse .optionalChainFromNew
  else
    .ok (.new {} (operand (callee.precedence < Precedence.call || callee.callsBeforeNew) callee)
      (arguments.map item))

def taggedTemplate (tag : Expr) (pieces : List String) (holes : List Expr) :
    Except Error Expr := do
  if tag.isOptionalChain then refuse .taggedOptionalChain
  return .tagged {} (chainStart tag) {} (← templateQuasis pieces holes) holes

def spread (argument : Expr) : Expr := .spread {} (item argument)

def array (elements : List (Option Expr)) : Expr := .array {} (elements.map (·.map item))

def field (key : String) (value : Expr) : Property :=
  .field {} (if isIdentifier key then .name { name := key } else .string { value := key })
    (item value) false

def object (fields : List (String × Expr)) : Expr :=
  .object {} (fields.map fun (key, value) => field key value)

def isRest : Pattern → Bool
  | .rest .. => true
  | _ => false

def arrow (params : List Pattern) (body : Expr) : Except Error Expr := do
  if params.dropLast.any isRest then refuse .restParameterNotLast
  checkDistinctParameters params
  return .arrow {} params
    (if body.kind == .objectExpression then parenthesized body else item body)

end ExprScript.Build
