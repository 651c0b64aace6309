import ExprScript.Tree.Reinterpret
import ExprScript.Tree.Precedence
import Mathlib

/-! # Well-formed trees

A condition on single nodes is carried to whole trees by `Everywhere`. The shape
of a node is such a condition: it says what the grammar promises about the node
and its immediate parts.
-/

namespace ExprScript

/-- A condition on the nodes of a tree. -/
structure Condition where
  expr : Expr → Prop
  pattern : Pattern → Prop

mutual

/-- The condition holds of everything inside of an expression. -/
def Expr.Inside (condition : Condition) : Expr → Prop
  | .template _ _ holes => itemsInside condition holes
  | .array _ elements => elementsInside condition elements
  | .object _ properties => propertiesInside condition properties
  | .paren _ inner => condition.expr inner ∧ inner.Inside condition
  | .arrow _ params body =>
    patternsInside condition params ∧ condition.expr body ∧ body.Inside condition
  | .unary _ _ argument => condition.expr argument ∧ argument.Inside condition
  | .update _ _ _ argument => condition.expr argument ∧ argument.Inside condition
  | .binary _ _ left right =>
    (condition.expr left ∧ left.Inside condition) ∧
      condition.expr right ∧ right.Inside condition
  | .logical _ _ left right =>
    (condition.expr left ∧ left.Inside condition) ∧
      condition.expr right ∧ right.Inside condition
  | .conditional _ test consequent alternate =>
    (condition.expr test ∧ test.Inside condition) ∧
      (condition.expr consequent ∧ consequent.Inside condition) ∧
      condition.expr alternate ∧ alternate.Inside condition
  | .assign _ _ target value =>
    (condition.expr target ∧ target.Inside condition) ∧
      condition.expr value ∧ value.Inside condition
  | .destructure _ _ pattern value =>
    (condition.pattern pattern ∧ pattern.Inside condition) ∧
      condition.expr value ∧ value.Inside condition
  | .sequence _ items => itemsInside condition items
  | .member _ owner key _ =>
    (condition.expr owner ∧ owner.Inside condition) ∧ key.Inside condition
  | .call _ callee arguments _ =>
    (condition.expr callee ∧ callee.Inside condition) ∧ itemsInside condition arguments
  | .new _ callee arguments =>
    (condition.expr callee ∧ callee.Inside condition) ∧ itemsInside condition arguments
  | .tagged _ tag _ _ holes =>
    (condition.expr tag ∧ tag.Inside condition) ∧ itemsInside condition holes
  | .spread _ argument => condition.expr argument ∧ argument.Inside condition
  | .null _ | .boolean _ _ | .number _ | .string _ | .regExp _ _ _ | .ident _ | .this _ => True

def itemsInside (condition : Condition) : List Expr → Prop
  | [] => True
  | item :: items => (condition.expr item ∧ item.Inside condition) ∧ itemsInside condition items

def elementsInside (condition : Condition) : List (Option Expr) → Prop
  | [] => True
  | none :: elements => elementsInside condition elements
  | some item :: elements =>
    (condition.expr item ∧ item.Inside condition) ∧ elementsInside condition elements

def Property.Inside (condition : Condition) : Property → Prop
  | .field _ key value _ =>
    key.Inside condition ∧ condition.expr value ∧ value.Inside condition
  | .spread _ argument => condition.expr argument ∧ argument.Inside condition

def propertiesInside (condition : Condition) : List Property → Prop
  | [] => True
  | property :: properties => property.Inside condition ∧ propertiesInside condition properties

def PropertyKey.Inside (condition : Condition) : PropertyKey → Prop
  | .computed key => condition.expr key ∧ key.Inside condition
  | .name _ | .string _ | .number _ => True

def MemberKey.Inside (condition : Condition) : MemberKey → Prop
  | .computed key => condition.expr key ∧ key.Inside condition
  | .name _ => True

/-- The condition holds of everything inside of a pattern. -/
def Pattern.Inside (condition : Condition) : Pattern → Prop
  | .ident _ => True
  | .array _ elements => patternElementsInside condition elements
  | .object _ properties => patternPropertiesInside condition properties
  | .rest _ argument => condition.pattern argument ∧ argument.Inside condition
  | .withDefault _ target value =>
    (condition.pattern target ∧ target.Inside condition) ∧
      condition.expr value ∧ value.Inside condition

def patternsInside (condition : Condition) : List Pattern → Prop
  | [] => True
  | pattern :: patterns =>
    (condition.pattern pattern ∧ pattern.Inside condition) ∧ patternsInside condition patterns

def patternElementsInside (condition : Condition) : List (Option Pattern) → Prop
  | [] => True
  | none :: elements => patternElementsInside condition elements
  | some pattern :: elements =>
    (condition.pattern pattern ∧ pattern.Inside condition) ∧
      patternElementsInside condition elements

def PatternProperty.Inside (condition : Condition) : PatternProperty → Prop
  | .field _ key value _ =>
    key.Inside condition ∧ condition.pattern value ∧ value.Inside condition
  | .rest _ argument => condition.pattern argument ∧ argument.Inside condition

def patternPropertiesInside (condition : Condition) : List PatternProperty → Prop
  | [] => True
  | property :: properties =>
    property.Inside condition ∧ patternPropertiesInside condition properties

end

/-- The condition holds of an expression and of everything inside of it. -/
def Expr.Everywhere (condition : Condition) (expr : Expr) : Prop :=
  condition.expr expr ∧ expr.Inside condition

def Pattern.Everywhere (condition : Condition) (pattern : Pattern) : Prop :=
  condition.pattern pattern ∧ pattern.Inside condition

/-! ## Joint conditions -/

/-- Nodes that satisfy both of two conditions satisfy a third one. -/
structure Condition.Joins (first second joint : Condition) : Prop where
  expr : ∀ expr, first.expr expr → second.expr expr → joint.expr expr
  pattern : ∀ pattern, first.pattern pattern → second.pattern pattern → joint.pattern pattern

section

set_option linter.unusedSectionVars false

variable {first second joint : Condition} (joins : first.Joins second joint)

include joins

mutual

/-- What lies inside satisfies the joint condition, too. -/
theorem Expr.inside_join : ∀ expr : Expr, expr.Inside first → expr.Inside second →
    expr.Inside joint
  | .template _ _ holes, inside, inside' => itemsInside_join holes inside inside'
  | .array _ elements, inside, inside' => elementsInside_join elements inside inside'
  | .object _ properties, inside, inside' => propertiesInside_join properties inside inside'
  | .paren _ inner, inside, inside' =>
    ⟨joins.expr _ inside.1 inside'.1, inner.inside_join inside.2 inside'.2⟩
  | .arrow _ params body, ⟨inside, rest⟩, ⟨inside', rest'⟩ =>
    ⟨patternsInside_join params inside inside',
      ⟨joins.expr _ rest.1 rest'.1, body.inside_join rest.2 rest'.2⟩⟩
  | .unary _ _ argument, inside, inside' =>
    ⟨joins.expr _ inside.1 inside'.1, argument.inside_join inside.2 inside'.2⟩
  | .update _ _ _ argument, inside, inside' =>
    ⟨joins.expr _ inside.1 inside'.1, argument.inside_join inside.2 inside'.2⟩
  | .binary _ _ left right, ⟨inside, rest⟩, ⟨inside', rest'⟩ =>
    ⟨⟨joins.expr _ inside.1 inside'.1, left.inside_join inside.2 inside'.2⟩,
      ⟨joins.expr _ rest.1 rest'.1, right.inside_join rest.2 rest'.2⟩⟩
  | .logical _ _ left right, ⟨inside, rest⟩, ⟨inside', rest'⟩ =>
    ⟨⟨joins.expr _ inside.1 inside'.1, left.inside_join inside.2 inside'.2⟩,
      ⟨joins.expr _ rest.1 rest'.1, right.inside_join rest.2 rest'.2⟩⟩
  | .conditional _ test consequent alternate, ⟨inside, middle, rest⟩, ⟨inside', middle', rest'⟩ =>
    ⟨⟨joins.expr _ inside.1 inside'.1, test.inside_join inside.2 inside'.2⟩,
      ⟨joins.expr _ middle.1 middle'.1, consequent.inside_join middle.2 middle'.2⟩,
      ⟨joins.expr _ rest.1 rest'.1, alternate.inside_join rest.2 rest'.2⟩⟩
  | .assign _ _ target value, ⟨inside, rest⟩, ⟨inside', rest'⟩ =>
    ⟨⟨joins.expr _ inside.1 inside'.1, target.inside_join inside.2 inside'.2⟩,
      ⟨joins.expr _ rest.1 rest'.1, value.inside_join rest.2 rest'.2⟩⟩
  | .destructure _ _ pattern value, ⟨inside, rest⟩, ⟨inside', rest'⟩ =>
    ⟨⟨joins.pattern _ inside.1 inside'.1, pattern.inside_join inside.2 inside'.2⟩,
      ⟨joins.expr _ rest.1 rest'.1, value.inside_join rest.2 rest'.2⟩⟩
  | .sequence _ items, inside, inside' => itemsInside_join items inside inside'
  | .member _ owner key _, ⟨inside, rest⟩, ⟨inside', rest'⟩ =>
    ⟨⟨joins.expr _ inside.1 inside'.1, owner.inside_join inside.2 inside'.2⟩,
      key.inside_join rest rest'⟩
  | .call _ callee arguments _, ⟨inside, rest⟩, ⟨inside', rest'⟩ =>
    ⟨⟨joins.expr _ inside.1 inside'.1, callee.inside_join inside.2 inside'.2⟩,
      itemsInside_join arguments rest rest'⟩
  | .new _ callee arguments, ⟨inside, rest⟩, ⟨inside', rest'⟩ =>
    ⟨⟨joins.expr _ inside.1 inside'.1, callee.inside_join inside.2 inside'.2⟩,
      itemsInside_join arguments rest rest'⟩
  | .tagged _ tag _ _ holes, ⟨inside, rest⟩, ⟨inside', rest'⟩ =>
    ⟨⟨joins.expr _ inside.1 inside'.1, tag.inside_join inside.2 inside'.2⟩,
      itemsInside_join holes rest rest'⟩
  | .spread _ argument, inside, inside' =>
    ⟨joins.expr _ inside.1 inside'.1, argument.inside_join inside.2 inside'.2⟩
  | .null _, _, _ | .boolean _ _, _, _ | .number _, _, _ | .string _, _, _ | .regExp _ _ _, _, _
  | .ident _, _, _ | .this _, _, _ => trivial

theorem itemsInside_join : ∀ items : List Expr, itemsInside first items →
    itemsInside second items → itemsInside joint items
  | [], _, _ => trivial
  | item :: items, ⟨inside, rest⟩, ⟨inside', rest'⟩ =>
    ⟨⟨joins.expr _ inside.1 inside'.1, item.inside_join inside.2 inside'.2⟩,
      itemsInside_join items rest rest'⟩

theorem elementsInside_join : ∀ elements : List (Option Expr), elementsInside first elements →
    elementsInside second elements → elementsInside joint elements
  | [], _, _ => trivial
  | none :: elements, inside, inside' => elementsInside_join elements inside inside'
  | some item :: elements, ⟨inside, rest⟩, ⟨inside', rest'⟩ =>
    ⟨⟨joins.expr _ inside.1 inside'.1, item.inside_join inside.2 inside'.2⟩,
      elementsInside_join elements rest rest'⟩

theorem Property.inside_join : ∀ property : Property, property.Inside first →
    property.Inside second → property.Inside joint
  | .field _ key value _, ⟨inside, rest⟩, ⟨inside', rest'⟩ =>
    ⟨key.inside_join inside inside',
      ⟨joins.expr _ rest.1 rest'.1, value.inside_join rest.2 rest'.2⟩⟩
  | .spread _ argument, inside, inside' =>
    ⟨joins.expr _ inside.1 inside'.1, argument.inside_join inside.2 inside'.2⟩

theorem propertiesInside_join : ∀ properties : List Property,
    propertiesInside first properties → propertiesInside second properties →
      propertiesInside joint properties
  | [], _, _ => trivial
  | property :: properties, ⟨inside, rest⟩, ⟨inside', rest'⟩ =>
    ⟨property.inside_join inside inside', propertiesInside_join properties rest rest'⟩

theorem PropertyKey.inside_join : ∀ key : PropertyKey, key.Inside first → key.Inside second →
    key.Inside joint
  | .computed key, inside, inside' =>
    ⟨joins.expr _ inside.1 inside'.1, key.inside_join inside.2 inside'.2⟩
  | .name _, _, _ | .string _, _, _ | .number _, _, _ => trivial

theorem MemberKey.inside_join : ∀ key : MemberKey, key.Inside first → key.Inside second →
    key.Inside joint
  | .computed key, inside, inside' =>
    ⟨joins.expr _ inside.1 inside'.1, key.inside_join inside.2 inside'.2⟩
  | .name _, _, _ => trivial

theorem Pattern.inside_join : ∀ pattern : Pattern, pattern.Inside first →
    pattern.Inside second → pattern.Inside joint
  | .ident _, _, _ => trivial
  | .array _ elements, inside, inside' => patternElementsInside_join elements inside inside'
  | .object _ properties, inside, inside' =>
    patternPropertiesInside_join properties inside inside'
  | .rest _ argument, inside, inside' =>
    ⟨joins.pattern _ inside.1 inside'.1, argument.inside_join inside.2 inside'.2⟩
  | .withDefault _ target value, ⟨inside, rest⟩, ⟨inside', rest'⟩ =>
    ⟨⟨joins.pattern _ inside.1 inside'.1, target.inside_join inside.2 inside'.2⟩,
      ⟨joins.expr _ rest.1 rest'.1, value.inside_join rest.2 rest'.2⟩⟩

theorem patternsInside_join : ∀ patterns : List Pattern, patternsInside first patterns →
    patternsInside second patterns → patternsInside joint patterns
  | [], _, _ => trivial
  | pattern :: patterns, ⟨inside, rest⟩, ⟨inside', rest'⟩ =>
    ⟨⟨joins.pattern _ inside.1 inside'.1, pattern.inside_join inside.2 inside'.2⟩,
      patternsInside_join patterns rest rest'⟩

theorem patternElementsInside_join : ∀ elements : List (Option Pattern),
    patternElementsInside first elements → patternElementsInside second elements →
      patternElementsInside joint elements
  | [], _, _ => trivial
  | none :: elements, inside, inside' => patternElementsInside_join elements inside inside'
  | some pattern :: elements, ⟨inside, rest⟩, ⟨inside', rest'⟩ =>
    ⟨⟨joins.pattern _ inside.1 inside'.1, pattern.inside_join inside.2 inside'.2⟩,
      patternElementsInside_join elements rest rest'⟩

theorem PatternProperty.inside_join : ∀ property : PatternProperty, property.Inside first →
    property.Inside second → property.Inside joint
  | .field _ key value _, ⟨inside, rest⟩, ⟨inside', rest'⟩ =>
    ⟨key.inside_join inside inside',
      ⟨joins.pattern _ rest.1 rest'.1, value.inside_join rest.2 rest'.2⟩⟩
  | .rest _ argument, inside, inside' =>
    ⟨joins.pattern _ inside.1 inside'.1, argument.inside_join inside.2 inside'.2⟩

theorem patternPropertiesInside_join : ∀ properties : List PatternProperty,
    patternPropertiesInside first properties → patternPropertiesInside second properties →
      patternPropertiesInside joint properties
  | [], _, _ => trivial
  | property :: properties, ⟨inside, rest⟩, ⟨inside', rest'⟩ =>
    ⟨property.inside_join inside inside', patternPropertiesInside_join properties rest rest'⟩

end

theorem Expr.everywhere_join {expr : Expr} (everywhere : expr.Everywhere first)
    (everywhere' : expr.Everywhere second) : expr.Everywhere joint :=
  ⟨joins.expr _ everywhere.1 everywhere'.1, expr.inside_join joins everywhere.2 everywhere'.2⟩

end

theorem Expr.everywhere_mono {narrow wide : Condition} {expr : Expr}
    (exprs : ∀ expr, narrow.expr expr → wide.expr expr)
    (patterns : ∀ pattern, narrow.pattern pattern → wide.pattern pattern)
    (everywhere : expr.Everywhere narrow) : expr.Everywhere wide := by
  have joins : narrow.Joins narrow wide :=
    ⟨fun _ holds _ => exprs _ holds, fun _ holds _ => patterns _ holds⟩
  exact everywhere_join joins everywhere everywhere

section

attribute [local simp] itemsInside elementsInside propertiesInside patternsInside
  patternElementsInside patternPropertiesInside

theorem itemsInside_iff (condition : Condition) (items : List Expr) :
    itemsInside condition items ↔ ∀ item ∈ items, item.Everywhere condition := by
  induction items with
  | nil => simp
  | cons item items induction => simp [Expr.Everywhere, induction]

theorem elementsInside_iff (condition : Condition) (elements : List (Option Expr)) :
    elementsInside condition elements ↔
      ∀ item, some item ∈ elements → item.Everywhere condition := by
  induction elements with
  | nil => simp
  | cons element elements induction =>
      cases element with
      | none => simp [induction]
      | some item =>
          simp only [elementsInside, induction, List.mem_cons, Option.some.injEq]
          constructor
          · rintro ⟨first, rest⟩ other (rfl | member)
            · exact first
            · exact rest other member
          · intro all
            exact ⟨all item (.inl rfl), fun other member => all other (.inr member)⟩

theorem propertiesInside_iff (condition : Condition) (properties : List Property) :
    propertiesInside condition properties ↔
      ∀ property ∈ properties, property.Inside condition := by
  induction properties with
  | nil => simp
  | cons property properties induction => simp [induction]

theorem patternsInside_iff (condition : Condition) (patterns : List Pattern) :
    patternsInside condition patterns ↔ ∀ pattern ∈ patterns, pattern.Everywhere condition := by
  induction patterns with
  | nil => simp
  | cons pattern patterns induction => simp [Pattern.Everywhere, induction]

theorem patternElementsInside_iff (condition : Condition) (elements : List (Option Pattern)) :
    patternElementsInside condition elements ↔
      ∀ pattern, some pattern ∈ elements → pattern.Everywhere condition := by
  induction elements with
  | nil => simp
  | cons element elements induction =>
      cases element with
      | none => simp [induction]
      | some first =>
          simp only [patternElementsInside, induction, List.mem_cons, Option.some.injEq]
          constructor
          · rintro ⟨holds, rest⟩ other (rfl | member)
            · exact holds
            · exact rest other member
          · intro all
            exact ⟨all first (.inl rfl), fun other member => all other (.inr member)⟩

theorem patternPropertiesInside_iff (condition : Condition) (properties : List PatternProperty) :
    patternPropertiesInside condition properties ↔
      ∀ property ∈ properties, property.Inside condition := by
  induction properties with
  | nil => simp
  | cons property properties induction => simp [induction]

end

/-! ## The shape of a node -/

theorem BinaryOp.precedence_le_exponent (op : BinaryOp) : op.precedence ≤ Precedence.exponent := by
  cases op with
  | arithmetic op => cases op <;> decide
  | _ => decide

theorem LogicalOp.precedence_lt_exponent (op : LogicalOp) :
    op.precedence < Precedence.exponent := by
  cases op <;> decide

/-- An infinite number is printed as a division and put in parentheses where a
literal needs none. -/
def Expr.isInfiniteLiteral : Expr → Bool
  | .number literal => literal.value.isInf
  | _ => false

def Expr.isSpread : Expr → Bool
  | .spread .. => true
  | _ => false

/-- The expression binds as tightly as a place demands, or it is an infinite
number. -/
def Expr.Fits (level : Nat) (expr : Expr) : Prop :=
  level ≤ expr.precedence ∨ expr.isInfiniteLiteral = true

/-- The expression may be an operand where a level is demanded. A spread is no
operand. -/
structure Expr.Operand (level : Nat) (expr : Expr) : Prop where
  notSpread : expr.isSpread = false
  fits : expr.Fits level

theorem Expr.Operand.mono {low high : Nat} {expr : Expr} (operand : expr.Operand high)
    (within : low ≤ high) : expr.Operand low :=
  ⟨operand.notSpread, operand.fits.imp (Nat.le_trans within) id⟩

/-- The expression may be an element of an array or an argument, where a spread
is allowed. -/
def Expr.Item (expr : Expr) : Prop := expr.Fits Precedence.assignment

/-- The expression may stand before `**`: no unary operation, although an update
is allowed. -/
def Expr.PowerBase : Expr → Prop
  | .update _ _ .before _ => True
  | .unary .. => False
  | expr => expr.Operand Precedence.postfixed

/-- No link of a constructor is a call or optional, up to the nearest
parentheses. -/
def Expr.constructs : Expr → Bool
  | .call .. => false
  | .member _ owner _ optional => !optional && owner.constructs
  | .tagged _ tag _ _ _ => tag.constructs
  | _ => true

/-- One more piece than holes, and the last piece alone is marked. -/
def TemplateShape (quasis : List Quasi) (holes : List Expr) : Prop :=
  quasis.map (·.tail) = List.replicate holes.length false ++ [true] ∧
    ∀ hole ∈ holes, hole.Operand Precedence.sequence

/-- A computed key of a property is no sequence. -/
def PropertyKey.Shape : PropertyKey → Prop
  | .computed key => key.Operand Precedence.assignment
  | .name _ | .string _ | .number _ => True

/-- A shorthand property is a name and nothing else. -/
def Property.Shape : Property → Prop
  | .field _ key value shorthand =>
    key.Shape ∧ value.Operand Precedence.assignment ∧
      (shorthand = true → ∃ id, key = .name id ∧ value = .ident id)
  | .spread _ argument => argument.Operand Precedence.assignment

def MemberKey.Shape : MemberKey → Prop
  | .computed key => key.Operand Precedence.sequence
  | .name _ => True

/-- What can be assigned to or bound, without a default. -/
def Pattern.isTarget : Pattern → Bool
  | .ident _ | .array .. | .object .. => true
  | .rest .. | .withDefault .. => false

/-- A pattern that stands for a part of the value only. -/
def Pattern.isComposite : Pattern → Bool
  | .array .. | .object .. => true
  | _ => false

/-- Only the last parameter may be a rest, and no name is bound twice. -/
def ParametersShape (params : List Pattern) : Prop :=
  (∀ param ∈ params.dropLast, param.kind ≠ .restElement) ∧
    checkDistinctParameters params = .ok ()

/-- What the grammar promises about an expression and its immediate parts. -/
def Expr.Shape : Expr → Prop
  | .template _ quasis holes => TemplateShape quasis holes
  | .array _ elements => ∀ item, some item ∈ elements → item.Item
  | .object _ properties => ∀ property ∈ properties, property.Shape
  | .paren _ inner => inner.Operand Precedence.sequence
  | .arrow _ params body => ParametersShape params ∧ body.Operand Precedence.assignment
  | .unary _ _ argument => argument.Operand Precedence.unary
  | .update _ _ _ argument => argument.isSimpleTarget = true ∧ argument.Operand Precedence.call
  | .binary _ op left right =>
    if op = .arithmetic .exp then left.PowerBase ∧ right.Operand Precedence.exponent
    else left.Operand op.precedence ∧ right.Operand (op.precedence + 1)
  | .logical _ op left right =>
    (left.Operand op.precedence ∧ op.conflictsWith left = false) ∧
      right.Operand (op.precedence + 1) ∧ op.conflictsWith right = false
  | .conditional _ test consequent alternate =>
    test.Operand Precedence.nullishOr ∧ consequent.Operand Precedence.assignment ∧
      alternate.Operand Precedence.assignment
  | .assign _ _ target value =>
    (target.isSimpleTarget = true ∧ target.Operand Precedence.call) ∧
      value.Operand Precedence.assignment
  | .destructure _ op pattern value =>
    op = .plain ∧ pattern.isComposite = true ∧ value.Operand Precedence.assignment
  | .sequence _ items => 2 ≤ items.length ∧ ∀ item ∈ items, item.Operand Precedence.assignment
  | .member _ owner key _ => owner.Operand Precedence.call ∧ key.Shape
  | .call _ callee arguments _ =>
    callee.Operand Precedence.call ∧ ∀ argument ∈ arguments, argument.Item
  | .new _ callee arguments =>
    (callee.Operand Precedence.call ∧ callee.constructs = true) ∧
      ∀ argument ∈ arguments, argument.Item
  | .tagged _ tag _ quasis holes =>
    (tag.Operand Precedence.call ∧ tag.isOptionalChain = false) ∧ TemplateShape quasis holes
  | .spread _ argument => argument.Operand Precedence.assignment
  | .null _ | .boolean _ _ | .number _ | .string _ | .regExp _ _ _ | .ident _ | .this _ => True

/-- A rest of the properties takes them all under one name; a shorthand is a
name, with or without a default. -/
def PatternProperty.Shape : PatternProperty → Prop
  | .field _ key value shorthand =>
    key.Shape ∧ value.kind ≠ .restElement ∧
      (shorthand = true → ∃ id, key = .name id ∧
        (value = .ident id ∨ ∃ loc fallback, value = .withDefault loc (.ident id) fallback))
  | .rest _ argument => ∃ id, argument = .ident id

/-- What the grammar promises about a pattern and its immediate parts. Only the
last part may be a rest. -/
def Pattern.Shape : Pattern → Prop
  | .ident _ => True
  | .array _ elements =>
    ∀ pattern, some pattern ∈ elements.dropLast → pattern.kind ≠ .restElement
  | .object _ properties =>
    (∀ property ∈ properties, property.Shape) ∧
      ∀ loc argument, PatternProperty.rest loc argument ∉ properties.dropLast
  | .rest _ argument => argument.isTarget = true
  | .withDefault _ target value =>
    target.isTarget = true ∧ value.Operand Precedence.assignment

/-- Every node has the shape that the grammar promises, and the whole is no
spread. -/
def Expr.WellFormed (expr : Expr) : Prop :=
  expr.isSpread = false ∧ expr.Everywhere ⟨Expr.Shape, Pattern.Shape⟩

end ExprScript
