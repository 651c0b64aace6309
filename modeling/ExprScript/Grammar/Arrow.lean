import ExprScript.Grammar.Literal

/-!
Parentheses and arrow functions. Parameters are read as expressions and become
patterns when the arrow shows what they are.
-/

namespace ExprScript.Parse

def arrow (rules : Rules) (start : Position) (items : List Expr) : Parse Expr := do
  let params ← ofExcept (reinterpretParameters items)
  let commas := (← get).trailingCommas
  ofExcept (params.forM (checkRestCommas commas))
  modify fun state => { state with pendingInitializer := none }
  let sign ← expect .arrow
  if sign.newlineBefore then throw sign.unexpected
  if ← at? .leftBrace then fail .arrowBlockBody (← Parse.start)
  let body ← isolate (rules .assignment)
  return .arrow (← spanFrom start) params body

structure GroupItems where
  items : List Expr
  /-- Set by a rest and by a last comma, which only parameters may have. -/
  parametersOnly : Bool

def groupItems (rules : Rules) : Parse GroupItems :=
  loop (fun reversed => do
    if ← at? .dotDotDot then
      let item ← spread rules inherit
      if !(← at? .rightParen) then fail .restParameterNotLast (← start)
      return .done { items := (item :: reversed).reverse, parametersOnly := true }
    let item ← inherit (rules .assignment)
    let reversed := item :: reversed
    if !(← eat? .comma) then return .done { items := reversed.reverse, parametersOnly := false }
    if ← at? .rightParen then return .done { items := reversed.reverse, parametersOnly := true }
    return .again reversed) ([] : List Expr)

def groupBody (start : Position) : List Expr → Expr
  | [item] => item
  | items =>
    let first := (items.head?.map (·.loc.start)).getD start
    let last := (items.getLast?.map (·.loc.stop)).getD start
    .sequence { start := first, stop := last } items

/-- A parenthesized expression, or an arrow function if an arrow follows where
one may start. -/
def groupOrArrow (rules : Rules) : Parse Expr := do
  let start ← start
  let mayBeArrow := start.offset == (← get).assignmentStart
  let _ ← expect .leftParen
  if ← at? .rightParen then
    let close ← advance
    if !mayBeArrow || !(← at? .arrow) then throw close.unexpected
    arrow rules start []
  else
    let group ← groupItems rules
    let close ← expect .rightParen
    if mayBeArrow && (← at? .arrow) then arrow rules start group.items
    else if group.parametersOnly then throw close.unexpected
    else
      return .paren (← spanFrom start) (groupBody start group.items)

def nameOrArrow (rules : Rules) : Parse Expr := do
  let start ← start
  if start.offset == (← get).assignmentStart then
    if (← secondKind) == .punctuator .arrow then
      let id ← bindingName
      return ← arrow rules start [.ident id]
  return .ident (← bindingName)

end ExprScript.Parse
