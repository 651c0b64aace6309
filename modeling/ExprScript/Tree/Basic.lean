import ExprScript.Source.Position
import ExprScript.Tree.Operator

/-!
Expressions and patterns. Every node keeps the span of source text that it was
read from; nodes that were built without a source have the default span.
-/

namespace ExprScript

/-- A name at a place of the source. -/
structure Ident where
  loc : Span := {}
  name : String
deriving DecidableEq, Repr

structure NumberLiteral where
  loc : Span := {}
  value : Float
  /-- How the number was written. -/
  raw : String

structure StringLiteral where
  loc : Span := {}
  value : String
deriving DecidableEq, Repr

/-- The text between two holes of a template. -/
structure Quasi where
  loc : Span := {}
  /-- With escapes interpreted. -/
  cooked : String
  /-- As written, except for line ends. -/
  raw : String
  /-- Set on the last piece. -/
  tail : Bool
deriving DecidableEq, Repr

mutual

inductive Expr where
  | null (loc : Span)
  | boolean (loc : Span) (value : Bool)
  | number (literal : NumberLiteral)
  | string (literal : StringLiteral)
  | regExp (loc : Span) (pattern flags : String)
  | template (loc : Span) (quasis : List Quasi) (holes : List Expr)
  | ident (id : Ident)
  | this (loc : Span)
  /-- A missing element is a hole. -/
  | array (loc : Span) (elements : List (Option Expr))
  | object (loc : Span) (properties : List Property)
  | paren (loc : Span) (inner : Expr)
  | arrow (loc : Span) (params : List Pattern) (body : Expr)
  | unary (loc : Span) (op : UnaryOp) (argument : Expr)
  | update (loc : Span) (op : UpdateOp) (fixity : Fixity) (argument : Expr)
  | binary (loc : Span) (op : BinaryOp) (left right : Expr)
  | logical (loc : Span) (op : LogicalOp) (left right : Expr)
  | conditional (loc : Span) (test consequent alternate : Expr)
  /-- Assignment to a variable or a member. -/
  | assign (loc : Span) (op : AssignOp) (target value : Expr)
  /-- Assignment to all names of a pattern at once. -/
  | destructure (loc : Span) (op : AssignOp) (pattern : Pattern) (value : Expr)
  | sequence (loc : Span) (items : List Expr)
  | member (loc : Span) (object : Expr) (key : MemberKey) (optional : Bool)
  | call (loc : Span) (callee : Expr) (arguments : List Expr) (optional : Bool)
  | new (loc : Span) (callee : Expr) (arguments : List Expr)
  | tagged (loc : Span) (tag : Expr) (templateLoc : Span) (quasis : List Quasi)
      (holes : List Expr)
  | spread (loc : Span) (argument : Expr)

inductive Property where
  | field (loc : Span) (key : PropertyKey) (value : Expr) (shorthand : Bool)
  | spread (loc : Span) (argument : Expr)

/-- The key of a property in an object literal or an object pattern. -/
inductive PropertyKey where
  | name (id : Ident)
  | string (literal : StringLiteral)
  | number (literal : NumberLiteral)
  | computed (key : Expr)

inductive MemberKey where
  | name (id : Ident)
  | computed (key : Expr)

/-- What a value is taken apart by. -/
inductive Pattern where
  | ident (id : Ident)
  | array (loc : Span) (elements : List (Option Pattern))
  | object (loc : Span) (properties : List PatternProperty)
  | rest (loc : Span) (argument : Pattern)
  /-- A pattern with a default for a value that is not there. -/
  | withDefault (loc : Span) (target : Pattern) (value : Expr)

inductive PatternProperty where
  | field (loc : Span) (key : PropertyKey) (value : Pattern) (shorthand : Bool)
  | rest (loc : Span) (argument : Pattern)

end

inductive NodeKind where
  | nullLiteral
  | booleanLiteral
  | numericLiteral
  | stringLiteral
  | regExpLiteral
  | templateLiteral
  | identifier
  | thisExpression
  | arrayExpression
  | objectExpression
  | arrowFunctionExpression
  | unaryExpression
  | updateExpression
  | binaryExpression
  | logicalExpression
  | conditionalExpression
  | assignmentExpression
  | sequenceExpression
  | memberExpression
  | callExpression
  | newExpression
  | taggedTemplateExpression
  | spreadElement
  | parenthesizedExpression
  | arrayPattern
  | objectPattern
  | assignmentPattern
  | restElement
deriving DecidableEq, Repr

namespace NodeKind

def name : NodeKind → String
  | .nullLiteral => "NullLiteral"
  | .booleanLiteral => "BooleanLiteral"
  | .numericLiteral => "NumericLiteral"
  | .stringLiteral => "StringLiteral"
  | .regExpLiteral => "RegExpLiteral"
  | .templateLiteral => "TemplateLiteral"
  | .identifier => "Identifier"
  | .thisExpression => "ThisExpression"
  | .arrayExpression => "ArrayExpression"
  | .objectExpression => "ObjectExpression"
  | .arrowFunctionExpression => "ArrowFunctionExpression"
  | .unaryExpression => "UnaryExpression"
  | .updateExpression => "UpdateExpression"
  | .binaryExpression => "BinaryExpression"
  | .logicalExpression => "LogicalExpression"
  | .conditionalExpression => "ConditionalExpression"
  | .assignmentExpression => "AssignmentExpression"
  | .sequenceExpression => "SequenceExpression"
  | .memberExpression => "MemberExpression"
  | .callExpression => "CallExpression"
  | .newExpression => "NewExpression"
  | .taggedTemplateExpression => "TaggedTemplateExpression"
  | .spreadElement => "SpreadElement"
  | .parenthesizedExpression => "ParenthesizedExpression"
  | .arrayPattern => "ArrayPattern"
  | .objectPattern => "ObjectPattern"
  | .assignmentPattern => "AssignmentPattern"
  | .restElement => "RestElement"

def isLiteral : NodeKind → Bool
  | .nullLiteral | .booleanLiteral | .numericLiteral | .stringLiteral | .regExpLiteral
  | .templateLiteral => true
  | _ => false

def isPattern : NodeKind → Bool
  | .arrayPattern | .objectPattern | .assignmentPattern | .restElement => true
  | _ => false

end NodeKind

namespace Expr

def loc : Expr → Span
  | .number literal => literal.loc
  | .string literal => literal.loc
  | .ident id => id.loc
  | .null loc | .boolean loc _ | .regExp loc _ _ | .template loc _ _ | .this loc
  | .array loc _ | .object loc _ | .paren loc _ | .arrow loc _ _ | .unary loc _ _
  | .update loc _ _ _ | .binary loc _ _ _ | .logical loc _ _ _ | .conditional loc _ _ _
  | .assign loc _ _ _ | .destructure loc _ _ _ | .sequence loc _ | .member loc _ _ _
  | .call loc _ _ _ | .new loc _ _ | .tagged loc _ _ _ _ | .spread loc _ => loc

def kind : Expr → NodeKind
  | .null .. => .nullLiteral
  | .boolean .. => .booleanLiteral
  | .number .. => .numericLiteral
  | .string .. => .stringLiteral
  | .regExp .. => .regExpLiteral
  | .template .. => .templateLiteral
  | .ident .. => .identifier
  | .this .. => .thisExpression
  | .array .. => .arrayExpression
  | .object .. => .objectExpression
  | .paren .. => .parenthesizedExpression
  | .arrow .. => .arrowFunctionExpression
  | .unary .. => .unaryExpression
  | .update .. => .updateExpression
  | .binary .. => .binaryExpression
  | .logical .. => .logicalExpression
  | .conditional .. => .conditionalExpression
  | .assign .. | .destructure .. => .assignmentExpression
  | .sequence .. => .sequenceExpression
  | .member .. => .memberExpression
  | .call .. => .callExpression
  | .new .. => .newExpression
  | .tagged .. => .taggedTemplateExpression
  | .spread .. => .spreadElement

def unparenthesized : Expr → Expr
  | .paren _ inner => inner.unparenthesized
  | expr => expr

def isMemoized : Expr → Bool
  | .binary .. | .logical .. | .unary .. | .conditional .. | .member .. | .call .. | .new ..
  | .template .. | .tagged .. => true
  | _ => false

def isOptionalChain : Expr → Bool
  | .member _ owner _ optional => optional || owner.isOptionalChain
  | .call _ callee _ optional => optional || callee.isOptionalChain
  | _ => false

/-- Whether the expression may be assigned to: a name or a member, with or
without parentheses. -/
def isSimpleTarget : Expr → Bool
  | .ident _ => true
  | .member loc owner key optional => !(Expr.member loc owner key optional).isOptionalChain
  | .paren _ inner => inner.isSimpleTarget
  | _ => false

/-- Whether a chain would mean something else after `new`: it has a call, a
template or an optional link outside of parentheses. -/
def callsBeforeNew : Expr → Bool
  | .call .. | .tagged .. => true
  | .member _ owner _ optional => optional || owner.callsBeforeNew
  | _ => false

end Expr

namespace Pattern

def loc : Pattern → Span
  | .ident id => id.loc
  | .array loc _ | .object loc _ | .rest loc _ | .withDefault loc _ _ => loc

def kind : Pattern → NodeKind
  | .ident _ => .identifier
  | .array .. => .arrayPattern
  | .object .. => .objectPattern
  | .rest .. => .restElement
  | .withDefault .. => .assignmentPattern

mutual

def boundNames : Pattern → List Ident
  | .ident id => [id]
  | .array _ elements => elementNames elements
  | .object _ properties => propertyNames properties
  | .rest _ argument => argument.boundNames
  | .withDefault _ target _ => target.boundNames

def elementNames : List (Option Pattern) → List Ident
  | [] => []
  | none :: others => elementNames others
  | some pattern :: others => pattern.boundNames ++ elementNames others

def propertyNames : List PatternProperty → List Ident
  | [] => []
  | .field _ _ value _ :: others => value.boundNames ++ propertyNames others
  | .rest _ argument :: others => argument.boundNames ++ propertyNames others

end

end Pattern

end ExprScript
