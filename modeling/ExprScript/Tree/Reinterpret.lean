import ExprScript.Error
import ExprScript.Tree.Basic

/-!
Expressions as patterns. A pattern is read as an expression first; once the
sign after it shows that it is one, it is rebuilt: literals become patterns,
assignments become defaults, and a last spread becomes a rest.
-/

namespace ExprScript

inductive PatternUse where
  | assignment
  | parameter
deriving DecidableEq, Repr

def PatternUse.invalidTarget : PatternUse → Cause
  | .assignment => .invalidDestructuringTarget
  | .parameter => .invalidParameter

def PatternUse.refuse {α : Type} (use : PatternUse) (expr : Expr) : Except Error α :=
  .error { cause := use.invalidTarget, position := expr.loc.start }

/-- Whether the expression is an assignment of any form; none can be the
argument of a rest. -/
def Expr.isAssignment : Expr → Bool
  | .assign .. | .destructure .. => true
  | _ => false

def restNotLast {α : Type} (loc : Span) : Except Error α :=
  .error { cause := .restElementNotLast, position := loc.start }

mutual

def reinterpret (use : PatternUse) : Expr → Except Error Pattern
  | .ident id => .ok (.ident id)
  | .array loc elements => do return .array loc (← reinterpretElements use elements)
  | .object loc properties => do return .object loc (← reinterpretProperties use properties)
  | .assign loc .plain target value => do
    return .withDefault loc (← reinterpret use target) value
  | .destructure loc .plain pattern value => .ok (.withDefault loc pattern value)
  | expr => use.refuse expr

def reinterpretElements (use : PatternUse) :
    List (Option Expr) → Except Error (List (Option Pattern))
  | [] => .ok []
  | none :: elements => do return none :: (← reinterpretElements use elements)
  | some (.spread loc argument) :: elements => do
    if !elements.isEmpty then restNotLast loc
    if argument.isAssignment then use.refuse argument
    return [some (.rest loc (← reinterpret use argument))]
  | some expr :: elements => do
    let pattern ← reinterpret use expr
    return some pattern :: (← reinterpretElements use elements)

def reinterpretProperties (use : PatternUse) :
    List Property → Except Error (List PatternProperty)
  | [] => .ok []
  | .spread loc argument :: properties => do
    if !properties.isEmpty then restNotLast loc
    match argument with
    | .ident id => return [.rest loc (.ident id)]
    | _ => use.refuse argument
  | .field loc key value shorthand :: properties => do
    let pattern ← reinterpret use value
    return .field loc key pattern shorthand :: (← reinterpretProperties use properties)

end

def firstRepeated : List String → List Ident → Option Ident
  | _, [] => none
  | seen, id :: ids =>
    if seen.contains id.name then some id else firstRepeated (id.name :: seen) ids

def checkDistinctParameters (params : List Pattern) : Except Error Unit :=
  match firstRepeated [] (params.flatMap Pattern.boundNames) with
  | some id => .error { cause := .duplicateParameter, position := id.loc.start }
  | none => .ok ()

def reinterpretItems : List Expr → Except Error (List Pattern)
  | [] => .ok []
  | .spread loc argument :: items => do
    if !items.isEmpty then
      throw { cause := .restParameterNotLast, position := loc.start }
    if argument.isAssignment then PatternUse.parameter.refuse argument
    return [.rest loc (← reinterpret .parameter argument)]
  | expr :: items => do
    let pattern ← reinterpret .parameter expr
    return pattern :: (← reinterpretItems items)

def reinterpretParameters (items : List Expr) : Except Error (List Pattern) := do
  let params ← reinterpretItems items
  checkDistinctParameters params
  return params

abbrev TrailingComma := Position × Position

mutual

def Pattern.restComma? (commas : List TrailingComma) : Pattern → Option Position
  | .ident _ => none
  | .withDefault _ target _ => target.restComma? commas
  | .rest loc argument =>
    match commas.find? (·.1 == loc.start) with
    | some (_, comma) => some comma
    | none => argument.restComma? commas
  | .array _ elements => elementsRestComma? commas elements
  | .object _ properties => propertiesRestComma? commas properties

def elementsRestComma? (commas : List TrailingComma) : List (Option Pattern) → Option Position
  | [] => none
  | none :: elements => elementsRestComma? commas elements
  | some pattern :: elements =>
    (pattern.restComma? commas).or (elementsRestComma? commas elements)

def propertiesRestComma? (commas : List TrailingComma) :
    List PatternProperty → Option Position
  | [] => none
  | .field _ _ value _ :: properties =>
    (value.restComma? commas).or (propertiesRestComma? commas properties)
  | .rest _ argument :: properties =>
    (argument.restComma? commas).or (propertiesRestComma? commas properties)

end

def checkRestCommas (commas : List TrailingComma) (pattern : Pattern) : Except Error Unit :=
  match pattern.restComma? commas with
  | some comma => .error { cause := .restElementNotLast, position := comma }
  | none => .ok ()

end ExprScript
