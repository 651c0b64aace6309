import ExprScript.Token.Scanner
import ExprScript.Tree.Basic

/-!
The state of the parser and its primitive steps. One token of lookahead is
always scanned in advance, so an error in the next token is reported before
the current one is used.
-/

namespace ExprScript

structure ParserState where
  scanner : Scanner
  /-- The next token that is not used yet. -/
  lookahead : Token
  /-- The end of the last token that was used. -/
  previousEnd : Position
  strict : Bool
  /-- The offset of the innermost assignment expression. An arrow function may
  only start there. -/
  assignmentStart : Nat := 0
  /-- The first initializer of a shorthand property that no pattern has claimed
  yet. It is an error unless the literal turns out to be a pattern. -/
  pendingInitializer : Option Position := none
  /-- Spreads in array literals that a last comma follows. -/
  trailingCommas : List (Position × Position) := []

/-- A function that parses and may fail. -/
abbrev Parse := EStateM Error ParserState

/-- The rules of the grammar that are used recursively. Every use follows a
token that belongs to the using rule. -/
inductive Rule where
  | assignment
  | exponent
  | unary
  | construction
deriving DecidableEq, Repr

abbrev Rules := Rule → Parse Expr

namespace Parse

def scan {α : Type} (action : Scan α) : Parse α := fun state =>
  match action.run state.scanner with
  | .ok result scanner => .ok result { state with scanner }
  | .error error scanner => .error error { state with scanner }

def ofExcept {α : Type} : Except Error α → Parse α
  | .ok result => pure result
  | .error error => throw error

def fail {α : Type} (cause : Cause) (position : Position) : Parse α :=
  throw { cause, position }

def lookahead : Parse Token := return (← get).lookahead

def kind : Parse TokenKind := return (← get).lookahead.kind

def start : Parse Position := return (← get).lookahead.span.start

def unexpected {α : Type} : Parse α := do throw (← lookahead).unexpected

def advance : Parse Token := do
  let next ← scan Scanner.next
  let token ← lookahead
  modify fun state => { state with lookahead := next, previousEnd := token.span.stop }
  return token

def at? (mark : Punctuator) : Parse Bool := return (← kind) == .punctuator mark

def eat? (mark : Punctuator) : Parse Bool := do
  if ← at? mark then
    let _ ← advance
    return true
  else return false

def expect (mark : Punctuator) : Parse Token := do
  if ← at? mark then advance else unexpected

def secondKind : Parse TokenKind := do
  match Scanner.next.run (← get).scanner with
  | .ok token _ => return token.kind
  | .error error _ => throw error

def spanFrom (start : Position) : Parse Span :=
  return { start, stop := (← get).previousEnd }

def loop {α β : Type} (round : α → Parse (Round α β)) (state : α) : Parse β := do
  let stalled := do fail .stalledScanner (← start)
  repeatWithin stalled round ((← get).scanner.cursor.rest.length + 2) state

/-- Parses what has to be an expression: an initializer of a shorthand property
in it is an error. -/
def isolate {α : Type} (parse : Parse α) : Parse α := do
  let previous := (← get).pendingInitializer
  modify fun state => { state with pendingInitializer := none }
  let result ← parse
  match (← get).pendingInitializer with
  | some position => fail .shorthandInitializer position
  | none =>
    modify fun state => { state with pendingInitializer := previous }
    return result

/-- Parses what may still become a pattern: an initializer of a shorthand
property in it is passed on. -/
def inherit {α : Type} (parse : Parse α) : Parse α := do
  let previous := (← get).pendingInitializer
  modify fun state => { state with pendingInitializer := none }
  let result ← parse
  modify fun state => { state with pendingInitializer := previous.or state.pendingInitializer }
  return result

def strictReservedWords : List String :=
  ["implements", "interface", "let", "package", "private", "protected", "public", "static",
   "yield"]

def bindingName : Parse Ident := do
  if (← kind) != .identifier then unexpected
  let token ← advance
  if (← get).strict && strictReservedWords.contains token.text then
    fail .strictReservedWord token.span.start
  return { loc := token.span, name := token.text }

def propertyName : Parse Ident := do
  if !(← lookahead).isName then unexpected
  let token ← advance
  return { loc := token.span, name := token.text }

def stringLiteral : Parse StringLiteral := do
  if (← kind) != .stringLiteral then unexpected
  let token ← advance
  if token.octal && (← get).strict then fail .octalEscape token.span.start
  return { loc := token.span, value := token.text }

def numberLiteral : Parse NumberLiteral := do
  let token ← advance
  if token.octal && (← get).strict then
    let cause :=
      if token.raw.toList.any fun c => c == '8' || c == '9' then Cause.leadingZeroDecimal
      else Cause.octalLiteral
    fail cause token.span.start
  let value := match token.payload with
    | .number value => value
    | _ => Number.nan
  return { loc := token.span, value, raw := token.raw }

end Parse

end ExprScript
