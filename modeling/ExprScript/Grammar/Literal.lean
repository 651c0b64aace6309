import ExprScript.Grammar.Basic
import ExprScript.Tree.Reinterpret

/-!
Literals with parts of their own: sequences, arguments, templates, arrays,
objects and regular expressions.
-/

namespace ExprScript.Parse

def expression (rules : Rules) : Parse Expr := do
  let start ← start
  let first ← isolate (rules .assignment)
  if !(← at? .comma) then return first
  let reversed ← loop (fun reversed => do
    if ← eat? .comma then
      let item ← isolate (rules .assignment)
      return .again (item :: reversed)
    else return .done reversed) [first]
  return .sequence (← spanFrom start) reversed.reverse

def computedMember (rules : Rules) : Parse MemberKey := do
  let _ ← expect .leftBracket
  let key ← isolate (expression rules)
  let _ ← expect .rightBracket
  return .computed key

/-- A spread; the dots are the next token. Whether its argument may still
become a pattern depends on the place. -/
def spread (rules : Rules) (wrap : Parse Expr → Parse Expr) : Parse Expr := do
  let start ← start
  let _ ← advance
  let argument ← wrap (rules .assignment)
  return .spread (← spanFrom start) argument

def arguments (rules : Rules) : Parse (List Expr) := do
  let _ ← expect .leftParen
  let reversed ← loop (fun reversed => do
    if ← at? .rightParen then return .done reversed
    let argument ←
      if ← at? .dotDotDot then spread rules isolate else isolate (rules .assignment)
    if !(← at? .rightParen) then
      let _ ← expect .comma
    return .again (argument :: reversed)) []
  let _ ← expect .rightParen
  return reversed.reverse

def quasiOf (token : Token) : Quasi :=
  let (cooked, raw) := match token.payload with
    | .template cooked raw => (cooked, raw)
    | _ => ("", "")
  { loc := token.span, cooked, raw, tail := token.endsTemplate }

structure TemplateParts where
  loc : Span
  quasis : List Quasi
  holes : List Expr

/-- A template. The scanner resumes template text by itself when a hole is
closed. -/
def template (rules : Rules) : Parse TemplateParts := do
  let start ← start
  let head ← advance
  let (quasis, holes) ← loop (fun (token, quasis, holes) => do
    if token.endsTemplate then return .done (quasis, holes)
    let hole ← expression rules
    if !(← kind).resumesTemplate then unexpected
    let next ← advance
    return .again (next, quasiOf next :: quasis, hole :: holes))
    (head, [quasiOf head], ([] : List Expr))
  return { loc := ← spanFrom start, quasis := quasis.reverse, holes := holes.reverse }

def noteTrailingComma (element : Expr) (comma : Token) : Parse Unit := do
  match element with
  | .spread loc _ =>
    if ← at? .rightBracket then
      modify fun state =>
        { state with trailingCommas := (loc.start, comma.span.start) :: state.trailingCommas }
  | _ => return

def arrayLiteral (rules : Rules) : Parse Expr := do
  let start ← start
  let _ ← expect .leftBracket
  let reversed ← loop (fun reversed => do
    if ← at? .rightBracket then return .done reversed
    if ← eat? .comma then return .again (none :: reversed)
    let element ←
      if ← at? .dotDotDot then spread rules inherit else inherit (rules .assignment)
    if !(← at? .rightBracket) then
      let comma ← expect .comma
      noteTrailingComma element comma
    return .again (some element :: reversed)) []
  let _ ← expect .rightBracket
  return .array (← spanFrom start) reversed.reverse

def shorthandProperty (rules : Rules) (start : Position) : Parse Property := do
  let id ← bindingName
  if ← at? .equal then
    let equal ← advance
    if (← get).pendingInitializer.isNone then
      modify fun state => { state with pendingInitializer := some equal.span.start }
    let value ← isolate (rules .assignment)
    let loc ← spanFrom start
    return .field loc (.name id) (.assign loc .plain (.ident id) value) true
  else
    return .field (← spanFrom start) (.name id) (.ident id) true

def isShorthand : Parse Bool := do
  if (← kind) != .identifier then return false
  let next ← secondKind
  return next == .punctuator .comma || next == .punctuator .rightBrace ||
    next == .punctuator .equal

def propertyKey (rules : Rules) : Parse PropertyKey := do
  match ← kind with
  | .punctuator .leftBracket =>
    let _ ← advance
    let key ← isolate (rules .assignment)
    let _ ← expect .rightBracket
    return .computed key
  | .stringLiteral => return .string (← stringLiteral)
  | .numericLiteral => return .number (← numberLiteral)
  | _ => return .name (← propertyName)

def property (rules : Rules) : Parse Property := do
  let start ← start
  if ← at? .dotDotDot then
    let _ ← advance
    let argument ← inherit (rules .assignment)
    return .spread (← spanFrom start) argument
  if ← isShorthand then shorthandProperty rules start
  else
    let key ← propertyKey rules
    let _ ← expect .colon
    let value ← inherit (rules .assignment)
    return .field (← spanFrom start) key value false

def objectLiteral (rules : Rules) : Parse Expr := do
  let start ← start
  let _ ← expect .leftBrace
  let reversed ← loop (fun reversed => do
    if ← at? .rightBrace then return .done reversed
    let property ← property rules
    if !(← at? .rightBrace) then
      let _ ← expect .comma
    return .again (property :: reversed)) []
  let _ ← expect .rightBrace
  return .object (← spanFrom start) reversed.reverse

/-- Whether the flags of a regular expression are known and differ, and the
two Unicode modes are not mixed. -/
def validRegExpFlags (flags : List Char) : Bool :=
  flags.all (fun c => "dgimsuyv".toList.contains c) && decide flags.Nodup &&
    !(flags.contains 'u' && flags.contains 'v')

def checkRegExpFlags (flags : String) (position : Position) : Except Error Unit :=
  if validRegExpFlags flags.toList then .ok ()
  else .error { cause := .invalidRegExpFlags flags, position }

def regExpLiteral : Parse Expr := do
  let token ← scan (Scanner.rescanRegExp (← lookahead))
  modify fun state => { state with lookahead := token }
  let token ← advance
  match token.payload with
  | .regExp pattern flags =>
    ofExcept (checkRegExpFlags flags token.span.start)
    return .regExp token.span pattern flags
  | _ => throw token.unexpected

end ExprScript.Parse
