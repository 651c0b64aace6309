import ExprScript.Tree.Printer
import ExprScript.Tree.Reinterpret
import Mathlib

/-! # Trees up to places

Two trees that differ only in the places they were read from are printed alike
and used alike by the grammar.
-/

namespace ExprScript

def Ident.erase (id : Ident) : Ident := { name := id.name }

def NumberLiteral.erase (literal : NumberLiteral) : NumberLiteral :=
  { value := literal.value, raw := literal.raw }

def StringLiteral.erase (literal : StringLiteral) : StringLiteral := { value := literal.value }

def Quasi.erase (quasi : Quasi) : Quasi :=
  { cooked := quasi.cooked, raw := quasi.raw, tail := quasi.tail }

mutual

/-- The expression without places. -/
def Expr.erase : Expr → Expr
  | .null _ => .null {}
  | .boolean _ value => .boolean {} value
  | .number literal => .number literal.erase
  | .string literal => .string literal.erase
  | .regExp _ pattern flags => .regExp {} pattern flags
  | .template _ quasis holes => .template {} (quasis.map Quasi.erase) (eraseItems holes)
  | .ident id => .ident id.erase
  | .this _ => .this {}
  | .array _ elements => .array {} (eraseElements elements)
  | .object _ properties => .object {} (eraseProperties properties)
  | .paren _ inner => .paren {} inner.erase
  | .arrow _ params body => .arrow {} (erasePatterns params) body.erase
  | .unary _ op argument => .unary {} op argument.erase
  | .update _ op fixity argument => .update {} op fixity argument.erase
  | .binary _ op left right => .binary {} op left.erase right.erase
  | .logical _ op left right => .logical {} op left.erase right.erase
  | .conditional _ test consequent alternate =>
    .conditional {} test.erase consequent.erase alternate.erase
  | .assign _ op target value => .assign {} op target.erase value.erase
  | .destructure _ op pattern value => .destructure {} op pattern.erase value.erase
  | .sequence _ items => .sequence {} (eraseItems items)
  | .member _ owner key optional => .member {} owner.erase key.erase optional
  | .call _ callee arguments optional => .call {} callee.erase (eraseItems arguments) optional
  | .new _ callee arguments => .new {} callee.erase (eraseItems arguments)
  | .tagged _ tag _ quasis holes =>
    .tagged {} tag.erase {} (quasis.map Quasi.erase) (eraseItems holes)
  | .spread _ argument => .spread {} argument.erase

def eraseItems : List Expr → List Expr
  | [] => []
  | item :: items => item.erase :: eraseItems items

def eraseElements : List (Option Expr) → List (Option Expr)
  | [] => []
  | none :: elements => none :: eraseElements elements
  | some item :: elements => some item.erase :: eraseElements elements

def Property.erase : Property → Property
  | .field _ key value shorthand => .field {} key.erase value.erase shorthand
  | .spread _ argument => .spread {} argument.erase

def eraseProperties : List Property → List Property
  | [] => []
  | property :: properties => property.erase :: eraseProperties properties

def PropertyKey.erase : PropertyKey → PropertyKey
  | .name id => .name id.erase
  | .string literal => .string literal.erase
  | .number literal => .number literal.erase
  | .computed key => .computed key.erase

def MemberKey.erase : MemberKey → MemberKey
  | .name id => .name id.erase
  | .computed key => .computed key.erase

def Pattern.erase : Pattern → Pattern
  | .ident id => .ident id.erase
  | .array _ elements => .array {} (erasePatternElements elements)
  | .object _ properties => .object {} (erasePatternProperties properties)
  | .rest _ argument => .rest {} argument.erase
  | .withDefault _ target value => .withDefault {} target.erase value.erase

def erasePatterns : List Pattern → List Pattern
  | [] => []
  | pattern :: patterns => pattern.erase :: erasePatterns patterns

def erasePatternElements : List (Option Pattern) → List (Option Pattern)
  | [] => []
  | none :: elements => none :: erasePatternElements elements
  | some pattern :: elements => some pattern.erase :: erasePatternElements elements

def PatternProperty.erase : PatternProperty → PatternProperty
  | .field _ key value shorthand => .field {} key.erase value.erase shorthand
  | .rest _ argument => .rest {} argument.erase

def erasePatternProperties : List PatternProperty → List PatternProperty
  | [] => []
  | property :: properties => property.erase :: erasePatternProperties properties

end

/-! ## What places do not decide -/

theorem eraseItems_eq_map (items : List Expr) : eraseItems items = items.map Expr.erase := by
  induction items with
  | nil => rfl
  | cons item items induction => rw [eraseItems, induction, List.map_cons]

theorem erasePatterns_eq_map (patterns : List Pattern) :
    erasePatterns patterns = patterns.map Pattern.erase := by
  induction patterns with
  | nil => rfl
  | cons pattern patterns induction => rw [erasePatterns, induction, List.map_cons]

@[simp] theorem isEmpty_eraseElements (elements : List (Option Expr)) :
    (eraseElements elements).isEmpty = elements.isEmpty := by
  cases elements with
  | nil => rfl
  | cons element elements => cases element <;> rfl

@[simp] theorem isEmpty_eraseProperties (properties : List Property) :
    (eraseProperties properties).isEmpty = properties.isEmpty := by
  cases properties with
  | nil => rfl
  | cons property properties => rfl

namespace Expr

@[simp] theorem kind_erase (expr : Expr) : expr.erase.kind = expr.kind := by
  cases expr <;> rfl

@[simp] theorem isAssignment_erase (expr : Expr) :
    expr.erase.isAssignment = expr.isAssignment := by
  cases expr <;> rfl

@[simp] theorem conflictsWith_erase (op : LogicalOp) (expr : Expr) :
    op.conflictsWith expr.erase = op.conflictsWith expr := by
  cases expr <;> rfl

@[simp] theorem isOptionalChain_erase : ∀ expr : Expr,
    expr.erase.isOptionalChain = expr.isOptionalChain
  | .member _ owner _ _ => by
      simp only [erase, isOptionalChain, owner.isOptionalChain_erase]
  | .call _ callee _ _ => by
      simp only [erase, isOptionalChain, callee.isOptionalChain_erase]
  | .null _ | .boolean _ _ | .number _ | .string _ | .regExp _ _ _ | .template _ _ _ | .ident _
  | .this _ | .array _ _ | .object _ _ | .paren _ _ | .arrow _ _ _ | .unary _ _ _
  | .update _ _ _ _ | .binary _ _ _ _ | .logical _ _ _ _ | .conditional _ _ _ _
  | .assign _ _ _ _ | .destructure _ _ _ _ | .sequence _ _ | .new _ _ _ | .tagged _ _ _ _ _
  | .spread _ _ => by simp only [erase, isOptionalChain]

@[simp] theorem isSimpleTarget_erase : ∀ expr : Expr,
    expr.erase.isSimpleTarget = expr.isSimpleTarget
  | .member loc owner key optional => by
      have chain := (Expr.member loc owner key optional).isOptionalChain_erase
      rw [erase] at chain ⊢
      simp only [isSimpleTarget, chain]
  | .paren _ inner => by simp only [erase, isSimpleTarget, inner.isSimpleTarget_erase]
  | .null _ | .boolean _ _ | .number _ | .string _ | .regExp _ _ _ | .template _ _ _ | .ident _
  | .this _ | .array _ _ | .object _ _ | .arrow _ _ _ | .unary _ _ _ | .call _ _ _ _
  | .update _ _ _ _ | .binary _ _ _ _ | .logical _ _ _ _ | .conditional _ _ _ _
  | .assign _ _ _ _ | .destructure _ _ _ _ | .sequence _ _ | .new _ _ _ | .tagged _ _ _ _ _
  | .spread _ _ => by simp only [erase, isSimpleTarget]

end Expr

namespace Pattern

mutual

theorem boundNames_erase : ∀ pattern : Pattern,
    pattern.erase.boundNames = pattern.boundNames.map Ident.erase
  | .ident _ => by simp only [erase, boundNames, List.map_cons, List.map_nil]
  | .array _ elements => by simp only [erase, boundNames, elementNames_erase elements]
  | .object _ properties => by simp only [erase, boundNames, propertyNames_erase properties]
  | .rest _ argument => by simp only [erase, boundNames, boundNames_erase argument]
  | .withDefault _ target _ => by simp only [erase, boundNames, boundNames_erase target]

theorem elementNames_erase : ∀ elements : List (Option Pattern),
    elementNames (erasePatternElements elements) = (elementNames elements).map Ident.erase
  | [] => rfl
  | none :: elements => by
      simp only [erasePatternElements, elementNames, elementNames_erase elements]
  | some pattern :: elements => by
      simp only [erasePatternElements, elementNames, boundNames_erase pattern,
        elementNames_erase elements, List.map_append]

theorem propertyNames_erase : ∀ properties : List PatternProperty,
    propertyNames (erasePatternProperties properties) =
      (propertyNames properties).map Ident.erase
  | [] => rfl
  | .field _ _ value _ :: properties => by
      simp only [erasePatternProperties, PatternProperty.erase, propertyNames,
        boundNames_erase value, propertyNames_erase properties, List.map_append]
  | .rest _ argument :: properties => by
      simp only [erasePatternProperties, PatternProperty.erase, propertyNames,
        boundNames_erase argument, propertyNames_erase properties, List.map_append]

end

end Pattern

theorem firstRepeated_erase (seen : List String) (ids : List Ident) :
    firstRepeated seen (ids.map Ident.erase) = (firstRepeated seen ids).map Ident.erase := by
  induction ids generalizing seen with
  | nil => rfl
  | cons id ids induction =>
      simp only [List.map_cons, firstRepeated, Ident.erase]
      split
      · rfl
      · exact induction _

/-! ## Patterns are rebuilt alike -/

theorem toOption_bind {ε α β : Type} (first : Except ε α) (next : α → Except ε β) :
    (first >>= next).toOption = first.toOption.bind fun value => (next value).toOption := by
  cases first <;> rfl

/-- Only a spread becomes a rest. -/
theorem reinterpretElements_some {use : PatternUse} {expr : Expr} (elements : List (Option Expr))
    (notSpread : expr.kind ≠ .spreadElement) :
    reinterpretElements use (some expr :: elements) = do
      let pattern ← reinterpret use expr
      return some pattern :: (← reinterpretElements use elements) := by
  cases expr with
  | spread => exact absurd rfl notSpread
  | _ => rw [reinterpretElements]; nofun

theorem reinterpretItems_cons {expr : Expr} (items : List Expr)
    (notSpread : expr.kind ≠ .spreadElement) :
    reinterpretItems (expr :: items) = do
      let pattern ← reinterpret .parameter expr
      return pattern :: (← reinterpretItems items) := by
  cases expr with
  | spread => exact absurd rfl notSpread
  | _ => rw [reinterpretItems]; nofun

mutual

theorem reinterpret_erase (use : PatternUse) : ∀ expr : Expr,
    (reinterpret use expr.erase).toOption = (reinterpret use expr).toOption.map Pattern.erase
  | .ident _ => by simp [Expr.erase, reinterpret, Except.toOption, Pattern.erase]
  | .array _ elements => by
      have same := reinterpretElements_erase use elements
      simp only [Expr.erase, reinterpret, toOption_bind, same]
      cases (reinterpretElements use elements).toOption <;>
        simp [Except.toOption, pure, Except.pure, Pattern.erase]
  | .object _ properties => by
      have same := reinterpretProperties_erase use properties
      simp only [Expr.erase, reinterpret, toOption_bind, same]
      cases (reinterpretProperties use properties).toOption <;>
        simp [Except.toOption, pure, Except.pure, Pattern.erase]
  | .assign _ op target _ => by
      have same := reinterpret_erase use target
      cases op with
      | plain =>
          simp only [Expr.erase, reinterpret, toOption_bind, same]
          cases (reinterpret use target).toOption <;>
            simp [Except.toOption, pure, Except.pure, Pattern.erase]
      | _ => simp [Expr.erase, reinterpret, PatternUse.refuse, Except.toOption]
  | .destructure _ op _ _ => by
      cases op <;>
        simp [Expr.erase, reinterpret, PatternUse.refuse, Except.toOption, Pattern.erase]
  | .null _ | .boolean _ _ | .number _ | .string _ | .regExp _ _ _ | .template _ _ _
  | .this _ | .paren _ _ | .arrow _ _ _ | .unary _ _ _ | .call _ _ _ _ | .member _ _ _ _
  | .update _ _ _ _ | .binary _ _ _ _ | .logical _ _ _ _ | .conditional _ _ _ _
  | .sequence _ _ | .new _ _ _ | .tagged _ _ _ _ _ | .spread _ _ => by
      simp [Expr.erase, reinterpret, PatternUse.refuse, Except.toOption]

theorem reinterpretElements_erase (use : PatternUse) : ∀ elements : List (Option Expr),
    (reinterpretElements use (eraseElements elements)).toOption =
      (reinterpretElements use elements).toOption.map erasePatternElements
  | [] => by simp [eraseElements, reinterpretElements, Except.toOption, erasePatternElements]
  | none :: elements => by
      have same := reinterpretElements_erase use elements
      simp only [eraseElements, reinterpretElements, toOption_bind, same]
      cases (reinterpretElements use elements).toOption <;>
        simp [Except.toOption, pure, Except.pure, erasePatternElements]
  | some expr :: elements => by
      have first := reinterpret_erase use expr
      have same := reinterpretElements_erase use elements
      by_cases isSpread : expr.kind = .spreadElement
      · cases expr with
        | spread loc argument =>
            have inner := reinterpret_erase use argument
            simp only [eraseElements, Expr.erase, reinterpretElements, isEmpty_eraseElements,
              Expr.isAssignment_erase]
            cases elements.isEmpty <;> cases argument.isAssignment <;>
              simp only [restNotLast, PatternUse.refuse, toOption_bind, inner, Bool.not_true,
                Bool.not_false, if_true, Bool.false_eq_true, if_false] <;>
              cases (reinterpret use argument).toOption <;>
                simp [Except.toOption, pure, Except.pure, erasePatternElements, Pattern.erase]
        | _ => cases isSpread
      · have notSpread : expr.erase.kind ≠ .spreadElement := by rwa [Expr.kind_erase]
        rw [eraseElements, reinterpretElements_some _ notSpread,
          reinterpretElements_some _ isSpread]
        simp only [toOption_bind, same, first]
        cases (reinterpret use expr).toOption <;>
          cases (reinterpretElements use elements).toOption <;>
            simp [Except.toOption, pure, Except.pure, erasePatternElements]

theorem reinterpretProperties_erase (use : PatternUse) : ∀ properties : List Property,
    (reinterpretProperties use (eraseProperties properties)).toOption =
      (reinterpretProperties use properties).toOption.map erasePatternProperties
  | [] => by
      simp [eraseProperties, reinterpretProperties, Except.toOption, erasePatternProperties]
  | .spread _ argument :: properties => by
      cases argument <;> cases isLast : properties.isEmpty <;>
        simp [eraseProperties, Property.erase, Expr.erase, reinterpretProperties, isLast,
          restNotLast, PatternUse.refuse, Except.toOption, bind, Except.bind, pure, Except.pure,
          erasePatternProperties, PatternProperty.erase, Pattern.erase]
  | .field _ _ value _ :: properties => by
      have first := reinterpret_erase use value
      have same := reinterpretProperties_erase use properties
      simp only [eraseProperties, Property.erase, reinterpretProperties, toOption_bind, same,
        first]
      cases (reinterpret use value).toOption <;>
        cases (reinterpretProperties use properties).toOption <;>
          simp [Except.toOption, pure, Except.pure, erasePatternProperties,
            PatternProperty.erase]

end

theorem reinterpretItems_erase (items : List Expr) :
    (reinterpretItems (eraseItems items)).toOption =
      (reinterpretItems items).toOption.map erasePatterns := by
  induction items with
  | nil => simp [eraseItems, reinterpretItems, Except.toOption, erasePatterns]
  | cons expr items same =>
      have first := reinterpret_erase .parameter expr
      by_cases isSpread : expr.kind = .spreadElement
      · cases expr with
        | spread loc argument =>
            have inner := reinterpret_erase .parameter argument
            have isEmpty : (eraseItems items).isEmpty = items.isEmpty := by
              rw [eraseItems_eq_map, List.isEmpty_map]
            simp only [eraseItems, Expr.erase, reinterpretItems, isEmpty,
              Expr.isAssignment_erase]
            cases items.isEmpty <;> cases argument.isAssignment <;>
              simp only [throw, throwThe, MonadExceptOf.throw, PatternUse.refuse, toOption_bind,
                inner, Bool.not_true, Bool.not_false, if_true, Bool.false_eq_true, if_false] <;>
              cases (reinterpret .parameter argument).toOption <;>
                simp [Except.toOption, pure, Except.pure, erasePatterns, Pattern.erase]
        | _ => cases isSpread
      · have notSpread : expr.erase.kind ≠ .spreadElement := by rwa [Expr.kind_erase]
        rw [eraseItems, reinterpretItems_cons _ notSpread, reinterpretItems_cons _ isSpread]
        simp only [toOption_bind, same, first]
        cases (reinterpret .parameter expr).toOption <;>
          cases (reinterpretItems items).toOption <;>
            simp [Except.toOption, pure, Except.pure, erasePatterns]

end ExprScript
