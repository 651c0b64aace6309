import ExprScript.Grammar.Chain
import ExprScript.Grammar.Climb

/-!
Operators, conditionals and assignments, and the grammar as a whole.
-/

namespace ExprScript

namespace Parse

def unaryOp? : TokenKind → Option UnaryOp
  | .punctuator .minus => some .minus
  | .punctuator .plus => some .plus
  | .punctuator .bang => some .not
  | .punctuator .tilde => some .bitNot
  | .keyword .typeofWord => some .typeof
  | .keyword .voidWord => some .void
  | _ => none

def updateOp? : TokenKind → Option UpdateOp
  | .punctuator .plusPlus => some .increment
  | .punctuator .minusMinus => some .decrement
  | _ => none

def assignOp? : TokenKind → Option AssignOp
  | .punctuator mark =>
    match mark with
    | .equal => some .plain
    | .plusEqual => some (.arithmetic .add)
    | .minusEqual => some (.arithmetic .sub)
    | .starEqual => some (.arithmetic .mul)
    | .slashEqual => some (.arithmetic .div)
    | .percentEqual => some (.arithmetic .rem)
    | .starStarEqual => some (.arithmetic .exp)
    | .lessLessEqual => some (.arithmetic .shiftLeft)
    | .greaterGreaterEqual => some (.arithmetic .shiftRight)
    | .greaterGreaterGreaterEqual => some (.arithmetic .shiftRightUnsigned)
    | .pipeEqual => some (.arithmetic .bitOr)
    | .caretEqual => some (.arithmetic .bitXor)
    | .ampersandEqual => some (.arithmetic .bitAnd)
    | .ampersandAmpersandEqual => some (.logical .and)
    | .pipePipeEqual => some (.logical .or)
    | .questionQuestionEqual => some (.logical .nullish)
    | _ => none
  | _ => none

/-- A chain with an update operator after it. The operator has to stand on the
same line. -/
def postfixed (rules : Rules) : Parse Expr := do
  let start ← start
  let expr ← inherit (chain rules)
  let token ← lookahead
  match updateOp? token.kind with
  | none => return expr
  | some op =>
    if token.newlineBefore then return expr
    if !expr.isSimpleTarget then fail .invalidPostfixTarget expr.loc.start
    let _ ← advance
    return .update (← spanFrom start) op .after expr

def unary (rules : Rules) : Parse Expr := do
  let start ← start
  let kind ← kind
  match unaryOp? kind, updateOp? kind with
  | some op, _ =>
    let _ ← advance
    let argument ← isolate (rules .unary)
    return .unary (← spanFrom start) op argument
  | none, some op =>
    let _ ← advance
    let argument ← isolate (rules .unary)
    if !argument.isSimpleTarget then fail .invalidPrefixTarget argument.loc.start
    return .update (← spanFrom start) op .before argument
  | none, none => postfixed rules

def exponent (rules : Rules) : Parse Expr := do
  let base ← inherit (unary rules)
  if !(← at? .starStar) then return base
  if base.kind == .unaryExpression then fail .unaryBeforePower (← start)
  let _ ← advance
  let power ← isolate (rules .exponent)
  return .binary (base.loc.join power.loc) (.arithmetic .exp) base power

def binary (rules : Rules) : Parse Expr := do
  let first ← inherit (exponent rules)
  let climb ← loop (fun (climb : Climb) => do
    let kind ← kind
    if binaryPrecedence kind = 0 then return .done climb
    let pending := { kind, precedence := binaryPrecedence kind, position := ← start }
    let climb ← ofExcept (climb.shift pending)
    let _ ← advance
    let operand ← isolate (exponent rules)
    return .again (climb.push operand)) { operands := [first] }
  ofExcept (climb.finish (← get).previousEnd)

def conditional (rules : Rules) : Parse Expr := do
  let start ← start
  let test ← inherit (binary rules)
  if !(← at? .question) then return test
  let _ ← advance
  let consequent ← isolate (rules .assignment)
  let _ ← expect .colon
  let alternate ← isolate (rules .assignment)
  return .conditional (← spanFrom start) test consequent alternate

def isPatternLiteral : Expr → Bool
  | .array .. | .object .. => true
  | _ => false

def assignedValue (rules : Rules) : Parse Expr := do
  let _ ← advance
  isolate (rules .assignment)

def destructuring (rules : Rules) (start : Position) (op : AssignOp) (literal : Expr) :
    Parse Expr := do
  let pattern ← ofExcept (reinterpret .assignment literal)
  ofExcept (checkRestCommas (← get).trailingCommas pattern)
  modify fun state => { state with pendingInitializer := none }
  let value ← assignedValue rules
  return .destructure (← spanFrom start) op pattern value

def assignmentTail (rules : Rules) (start : Position) (expr : Expr) : Parse Expr := do
  if expr.kind == .arrowFunctionExpression then return expr
  match assignOp? (← kind) with
  | none => return expr
  | some op =>
    if op = .plain && isPatternLiteral expr then destructuring rules start op expr
    else if expr.isSimpleTarget then
      let value ← assignedValue rules
      return .assign (← spanFrom start) op expr value
    else fail .invalidAssignmentTarget expr.loc.start

def assignment (rules : Rules) : Parse Expr := do
  let start ← start
  let saved := (← get).assignmentStart
  modify fun state => { state with assignmentStart := start.offset }
  let expr ← inherit (conditional rules)
  let result ← assignmentTail rules start expr
  modify fun state => { state with assignmentStart := saved }
  return result

def rules : Nat → Rules
  | 0, _ => do fail .stalledScanner (← start)
  | depth + 1, .assignment => assignment (rules depth)
  | depth + 1, .exponent => exponent (rules depth)
  | depth + 1, .unary => unary (rules depth)
  | depth + 1, .construction => construction (rules depth)

def program (depth : Nat) : Parse Expr := do
  let expr ← expression (rules depth)
  if (← kind) != .endOfInput then unexpected
  return expr

end Parse

/-- Parses a text. Each rule inside of another follows a token, so the length
of the text bounds the depth. -/
def parse (source : String) (strict : Bool := false) : Except Error Expr :=
  let scanner := Scanner.ofString source
  match Scanner.next.run scanner with
  | .error error _ => .error error
  | .ok lookahead scanner =>
    let state : ParserState :=
      { scanner, lookahead, previousEnd := lookahead.span.start, strict }
    match (Parse.program (source.length + 1)).run state with
    | .ok expr _ => .ok expr
    | .error error _ => .error error

section

variable {source : String} {lookahead : Token} {scanner : Scanner} {after : ParserState}
  {expr : Expr} {error : Error}

theorem parse_of_next_error (strict : Bool)
    (start : Scanner.next (.ofString source) = .error error scanner) :
    parse source strict = .error error := by
  simp only [parse, EStateM.run, start]

theorem parse_of_program {strict : Bool}
    (start : Scanner.next (.ofString source) = .ok lookahead scanner)
    (program : Parse.program (source.length + 1)
      { scanner, lookahead, previousEnd := lookahead.span.start, strict } = .ok expr after) :
    parse source strict = .ok expr := by
  simp only [parse, EStateM.run, start, program]

theorem parse_of_program_error {strict : Bool}
    (start : Scanner.next (.ofString source) = .ok lookahead scanner)
    (program : Parse.program (source.length + 1)
      { scanner, lookahead, previousEnd := lookahead.span.start, strict } = .error error after) :
    parse source strict = .error error := by
  simp only [parse, EStateM.run, start, program]

theorem runs_of_parse {strict : Bool} (parsed : parse source strict = .ok expr) :
    ∃ lookahead scanner after, Scanner.next (.ofString source) = .ok lookahead scanner ∧
      Parse.program (source.length + 1)
        { scanner, lookahead, previousEnd := lookahead.span.start, strict } = .ok expr after := by
  unfold parse at parsed
  dsimp only [EStateM.run] at parsed
  split at parsed
  · cases parsed
  · next lookahead scanner start =>
      split at parsed
      · next after program =>
          cases parsed
          exact ⟨lookahead, scanner, after, start, program⟩
      · cases parsed

end

end ExprScript
