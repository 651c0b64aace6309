import ExprScript.Eval.Call
import ExprScript.Proofs.Effect.Heap
import ExprScript.Proofs.Tree.WellFormed

/-! # Policies

A policy says which errors an evaluation may raise, and at which places of the
code. Code is accepted by a policy if its nodes have the shape that the grammar
promises and stand at such places; a policy that allows for every error accepts
all code. `Complies` follows a computation through all of its outcomes: the heap
develops by steps, and whatever is raised is an error that the policy allows.
-/

namespace ExprScript

/-- Which errors may be raised. An error of a call has no place as long as it has
not been blamed on the call. -/
structure Policy where
  /-- The places that errors are blamed on. -/
  place : Position → Prop
  error : Error → Prop
  /-- The errors that a call may end with, before they are blamed on it. -/
  raw : Error → Prop
  unplaced : ∀ cause : Cause, cause.kind ≠ .syntaxError → raw { cause }
  anchored : ∀ {failure : Error} {position : Position}, raw failure → place position →
    error (failure.anchoredAt position)
  passed : ∀ {failure : Error}, error failure → raw failure

namespace Policy

variable (policy : Policy)

def IsLenient : Prop := ∀ failure, policy.error failure

theorem raised {cause : Cause} {position : Position} (notSyntax : cause.kind ≠ .syntaxError)
    (isPlace : policy.place position) : policy.error { cause, position } :=
  policy.anchored (policy.unplaced cause notSyntax) isPlace

/-! ## Accepted code -/

/-- What is asked of the nodes of a tree. The properties of a pattern are places of
their own. -/
def code : Condition where
  expr := fun expr => policy.place expr.loc.start ∧ expr.Shape
  pattern := fun pattern => policy.place pattern.loc.start ∧ pattern.Shape ∧
    ∀ patternLoc properties, pattern = .object patternLoc properties →
      ∀ loc key value shorthand, PatternProperty.field loc key value shorthand ∈ properties →
        policy.place loc.start

def Accepts (expr : Expr) : Prop :=
  policy.IsLenient ∨ expr.isSpread = false ∧ expr.Everywhere policy.code

def AcceptsItem (expr : Expr) : Prop := policy.IsLenient ∨ expr.Everywhere policy.code

def AcceptsMemberKey (key : MemberKey) : Prop :=
  policy.IsLenient ∨ key.Shape ∧ key.Inside policy.code

def AcceptsKey (key : PropertyKey) : Prop :=
  policy.IsLenient ∨ key.Shape ∧ key.Inside policy.code

def AcceptsProperty (property : Property) : Prop :=
  policy.IsLenient ∨ property.Shape ∧ property.Inside policy.code

def AcceptsPattern (pattern : Pattern) : Prop :=
  policy.IsLenient ∨ pattern.Everywhere policy.code

def AcceptsPatternProperty (property : PatternProperty) : Prop :=
  policy.IsLenient ∨ (property.Shape ∧
    ∀ loc key value shorthand, property = .field loc key value shorthand →
      policy.place loc.start) ∧ property.Inside policy.code

/-- The functions that may be called: those of the host, and accepted arrow
functions. -/
def Function (function : FunctionValue) : Prop :=
  ∀ closure, function.body = .arrow closure →
    (∀ param ∈ closure.params, policy.AcceptsPattern param) ∧ policy.Accepts closure.body

variable {policy}

theorem Accepts.raised {expr : Expr} (accepts : policy.Accepts expr) {cause : Cause}
    (notSyntax : cause.kind ≠ .syntaxError) :
    policy.error { cause, position := expr.loc.start } := by
  rcases accepts with lenient | ⟨-, ⟨isPlace, -⟩, -⟩
  · exact lenient _
  · exact policy.raised notSyntax isPlace

theorem Accepts.anchored {expr : Expr} (accepts : policy.Accepts expr) (failure : Error)
    (isRaw : policy.raw failure) : policy.error (failure.anchoredAt expr.loc.start) := by
  rcases accepts with lenient | ⟨-, ⟨isPlace, -⟩, -⟩
  · exact lenient _
  · exact policy.anchored isRaw isPlace

theorem AcceptsItem.whole {expr : Expr} (accepts : policy.AcceptsItem expr)
    (notSpread : expr.isSpread = false) : policy.Accepts expr :=
  accepts.imp_right fun everywhere => ⟨notSpread, everywhere⟩

theorem AcceptsItem.spread {loc : Span} {argument : Expr}
    (accepts : policy.AcceptsItem (.spread loc argument)) : policy.Accepts argument :=
  accepts.imp_right fun ⟨⟨_, shape⟩, inside⟩ => ⟨shape.notSpread, inside⟩

theorem acceptsItem_of_mem {items : List Expr} (inside : itemsInside policy.code items)
    {item : Expr} (member : item ∈ items) : item.Everywhere policy.code :=
  (itemsInside_iff _ _).mp inside item member

namespace Accepts

variable {loc : Span}

/-! ### Parts of expressions -/

theorem paren {inner : Expr} (accepts : policy.Accepts (.paren loc inner)) :
    policy.Accepts inner :=
  accepts.imp_right fun ⟨_, ⟨_, shape⟩, inside⟩ => ⟨shape.notSpread, inside⟩

theorem unary {op : UnaryOp} {argument : Expr}
    (accepts : policy.Accepts (.unary loc op argument)) : policy.Accepts argument :=
  accepts.imp_right fun ⟨_, ⟨_, shape⟩, inside⟩ => ⟨shape.notSpread, inside⟩

theorem update {op : UpdateOp} {fixity : Fixity} {argument : Expr}
    (accepts : policy.Accepts (.update loc op fixity argument)) :
    policy.Accepts argument ∧ (policy.IsLenient ∨ argument.isSimpleTarget = true) :=
  ⟨accepts.imp_right fun ⟨_, ⟨_, shape⟩, inside⟩ => ⟨shape.2.notSpread, inside⟩,
    accepts.imp_right fun ⟨_, ⟨_, shape⟩, _⟩ => shape.1⟩

theorem binary {op : BinaryOp} {left right : Expr}
    (accepts : policy.Accepts (.binary loc op left right)) :
    policy.Accepts left ∧ policy.Accepts right := by
  rcases accepts with lenient | ⟨-, ⟨-, shape⟩, inside, inside'⟩
  · exact ⟨.inl lenient, .inl lenient⟩
  · have notSpreads : left.isSpread = false ∧ right.isSpread = false := by
      change if op = .arithmetic .exp then _ else _ at shape
      split at shape
      · refine ⟨?_, shape.2.notSpread⟩
        cases left with
        | spread => exact shape.1.notSpread
        | _ => rfl
      · exact ⟨shape.1.notSpread, shape.2.notSpread⟩
    exact ⟨.inr ⟨notSpreads.1, inside⟩, .inr ⟨notSpreads.2, inside'⟩⟩

theorem logical {op : LogicalOp} {left right : Expr}
    (accepts : policy.Accepts (.logical loc op left right)) :
    policy.Accepts left ∧ policy.Accepts right :=
  ⟨accepts.imp_right fun ⟨_, ⟨_, shape⟩, inside, _⟩ => ⟨shape.1.1.notSpread, inside⟩,
    accepts.imp_right fun ⟨_, ⟨_, shape⟩, _, inside⟩ => ⟨shape.2.1.notSpread, inside⟩⟩

theorem conditional {test consequent alternate : Expr}
    (accepts : policy.Accepts (.conditional loc test consequent alternate)) :
    policy.Accepts test ∧ policy.Accepts consequent ∧ policy.Accepts alternate :=
  ⟨accepts.imp_right fun ⟨_, ⟨_, shape⟩, inside, _⟩ => ⟨shape.1.notSpread, inside⟩,
    accepts.imp_right fun ⟨_, ⟨_, shape⟩, _, inside, _⟩ => ⟨shape.2.1.notSpread, inside⟩,
    accepts.imp_right fun ⟨_, ⟨_, shape⟩, _, _, inside⟩ => ⟨shape.2.2.notSpread, inside⟩⟩

theorem assign {op : AssignOp} {target value : Expr}
    (accepts : policy.Accepts (.assign loc op target value)) :
    (policy.Accepts target ∧ (policy.IsLenient ∨ target.isSimpleTarget = true)) ∧
      policy.Accepts value :=
  ⟨⟨accepts.imp_right fun ⟨_, ⟨_, shape⟩, inside, _⟩ => ⟨shape.1.2.notSpread, inside⟩,
      accepts.imp_right fun ⟨_, ⟨_, shape⟩, _⟩ => shape.1.1⟩,
    accepts.imp_right fun ⟨_, ⟨_, shape⟩, _, inside⟩ => ⟨shape.2.notSpread, inside⟩⟩

theorem destructure {op : AssignOp} {pattern : Pattern} {value : Expr}
    (accepts : policy.Accepts (.destructure loc op pattern value)) :
    policy.AcceptsPattern pattern ∧ policy.Accepts value :=
  ⟨accepts.imp_right fun ⟨_, _, inside, _⟩ => inside,
    accepts.imp_right fun ⟨_, ⟨_, shape⟩, _, inside⟩ => ⟨shape.2.2.notSpread, inside⟩⟩

theorem member {owner : Expr} {key : MemberKey} {optional : Bool}
    (accepts : policy.Accepts (.member loc owner key optional)) :
    policy.Accepts owner ∧ policy.AcceptsMemberKey key :=
  ⟨accepts.imp_right fun ⟨_, ⟨_, shape⟩, inside, _⟩ => ⟨shape.1.notSpread, inside⟩,
    accepts.imp_right fun ⟨_, ⟨_, shape⟩, _, inside⟩ => ⟨shape.2, inside⟩⟩

theorem call {callee : Expr} {arguments : List Expr} {optional : Bool}
    (accepts : policy.Accepts (.call loc callee arguments optional)) :
    policy.Accepts callee ∧ ∀ argument ∈ arguments, policy.AcceptsItem argument :=
  ⟨accepts.imp_right fun ⟨_, ⟨_, shape⟩, inside, _⟩ => ⟨shape.1.notSpread, inside⟩,
    fun _ isArgument => accepts.imp_right fun ⟨_, _, _, inside⟩ =>
      acceptsItem_of_mem inside isArgument⟩

theorem new {callee : Expr} {arguments : List Expr}
    (accepts : policy.Accepts (.new loc callee arguments)) :
    policy.Accepts callee ∧ ∀ argument ∈ arguments, policy.AcceptsItem argument :=
  ⟨accepts.imp_right fun ⟨_, ⟨_, shape⟩, inside, _⟩ => ⟨shape.1.1.notSpread, inside⟩,
    fun _ isArgument => accepts.imp_right fun ⟨_, _, _, inside⟩ =>
      acceptsItem_of_mem inside isArgument⟩

theorem template {quasis : List Quasi} {holes : List Expr}
    (accepts : policy.Accepts (.template loc quasis holes)) :
    ∀ hole ∈ holes, policy.Accepts hole :=
  fun hole isHole => accepts.imp_right fun ⟨_, ⟨_, shape⟩, inside⟩ =>
    ⟨(shape.2 hole isHole).notSpread, acceptsItem_of_mem inside isHole⟩

theorem tagged {tag : Expr} {templateLoc : Span} {quasis : List Quasi} {holes : List Expr}
    (accepts : policy.Accepts (.tagged loc tag templateLoc quasis holes)) :
    policy.Accepts tag ∧ ∀ hole ∈ holes, policy.Accepts hole :=
  ⟨accepts.imp_right fun ⟨_, ⟨_, shape⟩, inside, _⟩ => ⟨shape.1.1.notSpread, inside⟩,
    fun hole isHole => accepts.imp_right fun ⟨_, ⟨_, shape⟩, _, inside⟩ =>
      ⟨(shape.2.2 hole isHole).notSpread, acceptsItem_of_mem inside isHole⟩⟩

theorem sequence {items : List Expr} (accepts : policy.Accepts (.sequence loc items)) :
    ∀ item ∈ items, policy.Accepts item :=
  fun item isItem => accepts.imp_right fun ⟨_, ⟨_, shape⟩, inside⟩ =>
    ⟨(shape.2 item isItem).notSpread, acceptsItem_of_mem inside isItem⟩

theorem array {elements : List (Option Expr)} (accepts : policy.Accepts (.array loc elements)) :
    ∀ element, some element ∈ elements → policy.AcceptsItem element :=
  fun element isElement => accepts.imp_right fun ⟨_, _, inside⟩ =>
    (elementsInside_iff _ _).mp inside element isElement

theorem object {properties : List Property} (accepts : policy.Accepts (.object loc properties)) :
    ∀ property ∈ properties, policy.AcceptsProperty property :=
  fun property isProperty => accepts.imp_right fun ⟨_, ⟨_, shape⟩, inside⟩ =>
    ⟨shape property isProperty, (propertiesInside_iff _ _).mp inside property isProperty⟩

theorem arrow {params : List Pattern} {body : Expr}
    (accepts : policy.Accepts (.arrow loc params body)) :
    (∀ param ∈ params, policy.AcceptsPattern param) ∧ policy.Accepts body :=
  ⟨fun param isParam => accepts.imp_right fun ⟨_, _, inside, _⟩ =>
      (patternsInside_iff _ _).mp inside param isParam,
    accepts.imp_right fun ⟨_, ⟨_, shape⟩, _, inside⟩ => ⟨shape.2.notSpread, inside⟩⟩

end Accepts

theorem AcceptsMemberKey.computed {key : Expr}
    (accepts : policy.AcceptsMemberKey (.computed key)) : policy.Accepts key :=
  accepts.imp_right fun ⟨shape, inside⟩ => ⟨shape.notSpread, inside⟩

theorem AcceptsKey.computed {key : Expr} (accepts : policy.AcceptsKey (.computed key)) :
    policy.Accepts key :=
  accepts.imp_right fun ⟨shape, inside⟩ => ⟨shape.notSpread, inside⟩

theorem AcceptsProperty.field {loc : Span} {key : PropertyKey} {value : Expr} {shorthand : Bool}
    (accepts : policy.AcceptsProperty (.field loc key value shorthand)) :
    policy.AcceptsKey key ∧ policy.Accepts value :=
  ⟨accepts.imp_right fun ⟨shape, inside⟩ => ⟨shape.1, inside.1⟩,
    accepts.imp_right fun ⟨shape, inside⟩ => ⟨shape.2.1.notSpread, inside.2⟩⟩

theorem AcceptsProperty.spread {loc : Span} {argument : Expr}
    (accepts : policy.AcceptsProperty (.spread loc argument)) : policy.Accepts argument :=
  accepts.imp_right fun ⟨shape, inside⟩ => ⟨shape.notSpread, inside⟩

namespace AcceptsPattern

variable {loc : Span}

/-! ### Parts of patterns -/

theorem raised {pattern : Pattern} (accepts : policy.AcceptsPattern pattern) {cause : Cause}
    (notSyntax : cause.kind ≠ .syntaxError) :
    policy.error { cause, position := pattern.loc.start } := by
  rcases accepts with lenient | ⟨⟨isPlace, -⟩, -⟩
  · exact lenient _
  · exact policy.raised notSyntax isPlace

theorem rest {argument : Pattern} (accepts : policy.AcceptsPattern (.rest loc argument)) :
    policy.AcceptsPattern argument :=
  accepts.imp_right And.right

theorem withDefault {target : Pattern} {value : Expr}
    (accepts : policy.AcceptsPattern (.withDefault loc target value)) :
    policy.AcceptsPattern target ∧ policy.Accepts value :=
  ⟨accepts.imp_right fun ⟨_, inside⟩ => inside.1,
    accepts.imp_right fun ⟨⟨_, shape, _⟩, inside⟩ => ⟨shape.2.notSpread, inside.2⟩⟩

theorem array {elements : List (Option Pattern)}
    (accepts : policy.AcceptsPattern (.array loc elements)) :
    ∀ element, some element ∈ elements → policy.AcceptsPattern element :=
  fun element isElement => accepts.imp_right fun ⟨_, inside⟩ =>
    (patternElementsInside_iff _ _).mp inside element isElement

theorem object {properties : List PatternProperty}
    (accepts : policy.AcceptsPattern (.object loc properties)) :
    ∀ property ∈ properties, policy.AcceptsPatternProperty property := by
  intro property isProperty
  apply accepts.imp_right
  intro ⟨⟨_, shape, places⟩, inside⟩
  refine ⟨⟨shape.1 property isProperty, ?_⟩,
    (patternPropertiesInside_iff _ _).mp inside property isProperty⟩
  intro fieldLoc key value shorthand equal
  exact places loc properties rfl fieldLoc key value shorthand (equal ▸ isProperty)

end AcceptsPattern

theorem AcceptsPatternProperty.rest {loc : Span} {argument : Pattern}
    (accepts : policy.AcceptsPatternProperty (.rest loc argument)) :
    policy.AcceptsPattern argument :=
  accepts.imp_right And.right

theorem AcceptsPatternProperty.field {loc : Span} {key : PropertyKey} {value : Pattern}
    {shorthand : Bool}
    (accepts : policy.AcceptsPatternProperty (.field loc key value shorthand)) :
    policy.AcceptsKey key ∧ policy.AcceptsPattern value ∧
      ∀ cause : Cause, cause.kind ≠ .syntaxError →
        policy.error { cause, position := loc.start } := by
  refine ⟨accepts.imp_right fun ⟨⟨shape, _⟩, inside⟩ => ⟨shape.1, inside.1⟩,
    accepts.imp_right fun ⟨_, inside⟩ => inside.2, fun cause notSyntax => ?_⟩
  rcases accepts with lenient | ⟨⟨-, isPlace⟩, -⟩
  · exact lenient _
  · exact policy.raised notSyntax (isPlace loc key value shorthand rfl)

end Policy

end ExprScript
