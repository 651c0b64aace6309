import ExprScript.Grammar.Arrow

/-!
Primary expressions and the chains of members, calls and templates that follow
them.
-/

namespace ExprScript.Parse

def templateLiteral (rules : Rules) : Parse Expr := do
  let parts ← template rules
  return .template parts.loc parts.quasis parts.holes

def primary (rules : Rules) : Parse Expr := do
  match ← kind with
  | .identifier => nameOrArrow rules
  | .numericLiteral => return .number (← numberLiteral)
  | .stringLiteral => return .string (← stringLiteral)
  | .keyword .trueWord => return .boolean (← advance).span true
  | .keyword .falseWord => return .boolean (← advance).span false
  | .keyword .nullWord => return .null (← advance).span
  | .keyword .thisWord => return .this (← advance).span
  | .noSubstitutionTemplate | .templateHead => templateLiteral rules
  | .punctuator .leftBracket => arrayLiteral rules
  | .punctuator .leftBrace => objectLiteral rules
  | .punctuator .leftParen => groupOrArrow rules
  | .punctuator .slash | .punctuator .slashEqual => regExpLiteral
  | _ => unexpected

def taggedTemplate (rules : Rules) (start : Position) (tag : Expr) : Parse Expr := do
  let parts ← template rules
  return .tagged (← spanFrom start) tag parts.loc parts.quasis parts.holes

def namedMember (start : Position) (owner : Expr) (optional : Bool) : Parse Expr := do
  let id ← propertyName
  return .member (← spanFrom start) owner (.name id) optional

def bracketMember (rules : Rules) (start : Position) (owner : Expr) (optional : Bool) :
    Parse Expr := do
  let key ← computedMember rules
  return .member (← spanFrom start) owner key optional

def callWith (rules : Rules) (start : Position) (callee : Expr) (optional : Bool) :
    Parse Expr := do
  let args ← arguments rules
  return .call (← spanFrom start) callee args optional

def optionalLink (rules : Rules) (start : Position) (owner : Expr) : Parse Expr := do
  match ← kind with
  | .punctuator .leftParen => callWith rules start owner true
  | .punctuator .leftBracket => bracketMember rules start owner true
  | kind =>
    if kind.isTemplate then fail .taggedOptionalChain (← Parse.start)
    namedMember start owner true

/-- The constructor of a `new`: a primary expression or another `new`, with
members and templates but without calls. The word itself has been used. -/
def constructor (rules : Rules) : Parse Expr := do
  let first ←
    if (← kind) == .keyword .newWord then rules .construction else primary rules
  let start := first.loc.start
  loop (fun callee => do
    match ← kind with
    | .punctuator .dot =>
      let _ ← advance
      return .again (← namedMember start callee false)
    | .punctuator .leftBracket => return .again (← bracketMember rules start callee false)
    | .noSubstitutionTemplate | .templateHead =>
      return .again (← taggedTemplate rules start callee)
    | .punctuator .questionDot => fail .optionalChainFromNew (← Parse.start)
    | _ => return .done callee) first

def construction (rules : Rules) : Parse Expr := do
  let start ← start
  let _ ← advance
  if ← at? .dot then unexpected
  let callee ← constructor rules
  let args ← if ← at? .leftParen then arguments rules else pure []
  return .new (← spanFrom start) callee args

def links (rules : Rules) (start : Position) (first : Expr) : Parse Expr :=
  loop (fun (expr, afterOptional) => do
    match ← kind with
    | .punctuator .dot =>
      let _ ← advance
      return .again (← namedMember start expr false, afterOptional)
    | .punctuator .leftBracket =>
      return .again (← bracketMember rules start expr false, afterOptional)
    | .punctuator .leftParen => return .again (← callWith rules start expr false, afterOptional)
    | .punctuator .questionDot =>
      let _ ← advance
      return .again (← optionalLink rules start expr, true)
    | .noSubstitutionTemplate | .templateHead =>
      if afterOptional then fail .taggedOptionalChain (← Parse.start)
      return .again (← taggedTemplate rules start expr, afterOptional)
    | _ => return .done expr) (first, false)

def chain (rules : Rules) : Parse Expr := do
  let start ← start
  let first ←
    if (← kind) == .keyword .newWord then construction rules else primary rules
  match first with
  | .arrow .. => return first
  | _ => links rules start first

end ExprScript.Parse
