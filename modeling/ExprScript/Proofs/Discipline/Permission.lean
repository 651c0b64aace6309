import ExprScript.Tree.Basic

/-! # What code may do

Code is allowed by a permission if it writes and calls only as far as the permission
has it. An arrow function may do anything: it does so when it is called.
-/

namespace ExprScript

structure Permission where
  /-- Assignments of every kind. -/
  write : Prop
  /-- Calls of every kind. -/
  call : Prop

def Permission.IsFull (permission : Permission) : Prop := permission.write ∧ permission.call

/-! ## Code -/

section

variable (permission : Permission)

mutual

/-- The expression keeps to the permission when it is evaluated. The parameters and the body of
an arrow function are not evaluated with it. -/
def Expr.Allowed : Expr → Prop
  | .template _ _ holes => itemsAllowed holes
  | .array _ elements => elementsAllowed elements
  | .object _ properties => propertiesAllowed properties
  | .paren _ inner => inner.Allowed
  | .unary _ _ argument => argument.Allowed
  | .update _ _ _ argument => permission.write ∧ argument.Allowed
  | .binary _ _ left right => left.Allowed ∧ right.Allowed
  | .logical _ _ left right => left.Allowed ∧ right.Allowed
  | .conditional _ test consequent alternate =>
    test.Allowed ∧ consequent.Allowed ∧ alternate.Allowed
  | .assign _ _ target value => permission.write ∧ target.Allowed ∧ value.Allowed
  | .destructure _ _ pattern value => permission.write ∧ pattern.Allowed ∧ value.Allowed
  | .sequence _ items => itemsAllowed items
  | .member _ owner key _ => owner.Allowed ∧ key.Allowed
  | .call _ callee arguments _ => permission.call ∧ callee.Allowed ∧ itemsAllowed arguments
  | .new _ callee arguments => permission.call ∧ callee.Allowed ∧ itemsAllowed arguments
  | .tagged _ tag _ _ holes => permission.call ∧ tag.Allowed ∧ itemsAllowed holes
  | .spread _ argument => argument.Allowed
  | .null _ | .boolean _ _ | .number _ | .string _ | .regExp _ _ _ | .ident _ | .this _
  | .arrow _ _ _ => True

def itemsAllowed : List Expr → Prop
  | [] => True
  | item :: items => item.Allowed ∧ itemsAllowed items

def elementsAllowed : List (Option Expr) → Prop
  | [] => True
  | none :: elements => elementsAllowed elements
  | some element :: elements => element.Allowed ∧ elementsAllowed elements

def Property.Allowed : Property → Prop
  | .field _ key value _ => key.Allowed ∧ value.Allowed
  | .spread _ argument => argument.Allowed

def propertiesAllowed : List Property → Prop
  | [] => True
  | property :: properties => property.Allowed ∧ propertiesAllowed properties

def PropertyKey.Allowed : PropertyKey → Prop
  | .computed key => key.Allowed
  | .name _ | .string _ | .number _ => True

def MemberKey.Allowed : MemberKey → Prop
  | .computed key => key.Allowed
  | .name _ => True

/-- The defaults and the computed keys of the pattern keep to the permission. -/
def Pattern.Allowed : Pattern → Prop
  | .ident _ => True
  | .array _ elements => patternElementsAllowed elements
  | .object _ properties => patternPropertiesAllowed properties
  | .rest _ argument => argument.Allowed
  | .withDefault _ target fallback => target.Allowed ∧ fallback.Allowed

def patternElementsAllowed : List (Option Pattern) → Prop
  | [] => True
  | none :: elements => patternElementsAllowed elements
  | some element :: elements => element.Allowed ∧ patternElementsAllowed elements

def PatternProperty.Allowed : PatternProperty → Prop
  | .field _ key value _ => key.Allowed ∧ value.Allowed
  | .rest _ argument => argument.Allowed

def patternPropertiesAllowed : List PatternProperty → Prop
  | [] => True
  | property :: properties => property.Allowed ∧ patternPropertiesAllowed properties

end

end

section

variable {permission : Permission}

mutual

theorem Expr.allowed (full : permission.IsFull) : ∀ expr : Expr, expr.Allowed permission
  | .template _ _ holes => items_allowed full holes
  | .array _ elements => elements_allowed full elements
  | .object _ properties => properties_allowed full properties
  | .paren _ inner => inner.allowed full
  | .unary _ _ argument => argument.allowed full
  | .update _ _ _ argument => ⟨full.1, argument.allowed full⟩
  | .binary _ _ left right => ⟨left.allowed full, right.allowed full⟩
  | .logical _ _ left right => ⟨left.allowed full, right.allowed full⟩
  | .conditional _ test consequent alternate =>
    ⟨test.allowed full, consequent.allowed full, alternate.allowed full⟩
  | .assign _ _ target value => ⟨full.1, target.allowed full, value.allowed full⟩
  | .destructure _ _ pattern value => ⟨full.1, pattern.allowed full, value.allowed full⟩
  | .sequence _ items => items_allowed full items
  | .member _ owner key _ => ⟨owner.allowed full, key.allowed full⟩
  | .call _ callee arguments _ => ⟨full.2, callee.allowed full, items_allowed full arguments⟩
  | .new _ callee arguments => ⟨full.2, callee.allowed full, items_allowed full arguments⟩
  | .tagged _ tag _ _ holes => ⟨full.2, tag.allowed full, items_allowed full holes⟩
  | .spread _ argument => argument.allowed full
  | .null _ | .boolean _ _ | .number _ | .string _ | .regExp _ _ _ | .ident _ | .this _
  | .arrow _ _ _ => trivial

theorem items_allowed (full : permission.IsFull) :
    ∀ items : List Expr, itemsAllowed permission items
  | [] => trivial
  | item :: items => ⟨item.allowed full, items_allowed full items⟩

theorem elements_allowed (full : permission.IsFull) :
    ∀ elements : List (Option Expr), elementsAllowed permission elements
  | [] => trivial
  | none :: elements => elements_allowed full elements
  | some element :: elements => ⟨element.allowed full, elements_allowed full elements⟩

theorem Property.allowed (full : permission.IsFull) :
    ∀ property : Property, property.Allowed permission
  | .field _ key value _ => ⟨key.allowed full, value.allowed full⟩
  | .spread _ argument => argument.allowed full

theorem properties_allowed (full : permission.IsFull) : ∀ properties : List Property,
    propertiesAllowed permission properties
  | [] => trivial
  | property :: properties => ⟨property.allowed full, properties_allowed full properties⟩

theorem PropertyKey.allowed (full : permission.IsFull) :
    ∀ key : PropertyKey, key.Allowed permission
  | .computed key => key.allowed full
  | .name _ | .string _ | .number _ => trivial

theorem MemberKey.allowed (full : permission.IsFull) : ∀ key : MemberKey, key.Allowed permission
  | .computed key => key.allowed full
  | .name _ => trivial

theorem Pattern.allowed (full : permission.IsFull) :
    ∀ pattern : Pattern, pattern.Allowed permission
  | .ident _ => trivial
  | .array _ elements => patternElements_allowed full elements
  | .object _ properties => patternProperties_allowed full properties
  | .rest _ argument => argument.allowed full
  | .withDefault _ target fallback => ⟨target.allowed full, fallback.allowed full⟩

theorem patternElements_allowed (full : permission.IsFull) : ∀ elements : List (Option Pattern),
    patternElementsAllowed permission elements
  | [] => trivial
  | none :: elements => patternElements_allowed full elements
  | some element :: elements => ⟨element.allowed full, patternElements_allowed full elements⟩

theorem PatternProperty.allowed (full : permission.IsFull) :
    ∀ property : PatternProperty, property.Allowed permission
  | .field _ key value _ => ⟨key.allowed full, value.allowed full⟩
  | .rest _ argument => argument.allowed full

theorem patternProperties_allowed (full : permission.IsFull) :
    ∀ properties : List PatternProperty, patternPropertiesAllowed permission properties
  | [] => trivial
  | property :: properties => ⟨property.allowed full, patternProperties_allowed full properties⟩

end

end

end ExprScript
