import ExprScript.Proofs.Reading.Expression
import ExprScript.Proofs.Tree.Printed

/-! # Trees that can be written

The nodes of a writable tree have the shape that the grammar promises, and its words
have the form that is read again. The canonical form of such a tree is legible, so
that the text of the tree is parsed to its canonical form.
-/

namespace ExprScript

open Reader Scanner

/-! ## The words of a node -/

/-- A number that a literal denotes. If it is finite, its digits are read as the
number. -/
structure NumberLiteral.Writable (literal : NumberLiteral) : Prop where
  plain : Number.Plain literal.value
  readsBack : literal.value.isInf = false → Number.ReadsBack literal.value

def PropertyKey.Writable : PropertyKey → Prop
  | .name id => NameText id.name.toList
  | .number literal => literal.Writable ∧ literal.value.isInf = false
  | .string _ | .computed _ => True

def Property.Writable : Property → Prop
  | .field _ key _ _ => key.Writable
  | .spread _ _ => True

def MemberKey.Writable : MemberKey → Prop
  | .name id => NameText id.name.toList
  | .computed _ => True

/-- The words of an expression, those of its parts aside, are read as they are
written. -/
def Expr.Words : Expr → Prop
  | .number literal => literal.Writable
  | .regExp _ pattern flags =>
    RegExpText pattern.toList flags.toList ∧ Parse.validRegExpFlags flags.toList = true
  | .template _ quasis _ => ∀ quasi ∈ quasis, TemplateText quasi.raw.toList quasi.cooked.toList
  | .tagged _ _ _ quasis _ =>
    ∀ quasi ∈ quasis, TemplateText quasi.raw.toList quasi.cooked.toList
  | .ident id => id.Legible
  | .object _ properties => ∀ property ∈ properties, property.Writable
  | .member _ _ key _ => key.Writable
  | _ => True

def PatternProperty.Writable : PatternProperty → Prop
  | .field _ key _ _ => key.Writable
  | .rest _ _ => True

def Pattern.Words : Pattern → Prop
  | .ident id => id.Legible
  | .object _ properties => ∀ property ∈ properties, property.Writable
  | _ => True

def writable : Condition where
  expr expr := expr.Shape ∧ expr.Words
  pattern pattern := pattern.Shape ∧ pattern.Words

/-! ## Canonical lists -/

theorem canonicalHoles_eq_map (holes : List Expr) :
    canonicalHoles holes = holes.map Expr.canonical := by
  induction holes with
  | nil => rfl
  | cons hole holes induction => rw [canonicalHoles, induction, List.map_cons]

theorem canonicalItems_eq_map (items : List Expr) : canonicalItems items =
    items.map fun item => item.canonical.grouped (item.precedence < Precedence.assignment) := by
  induction items with
  | nil => rfl
  | cons item items induction => rw [canonicalItems, induction, List.map_cons]

theorem canonicalElements_eq_map (elements : List (Option Expr)) : canonicalElements elements =
    elements.map (Option.map fun item =>
      item.canonical.grouped (item.precedence < Precedence.assignment)) := by
  induction elements with
  | nil => rfl
  | cons element elements induction =>
      cases element <;> rw [canonicalElements, induction] <;> rfl

theorem canonicalPatterns_eq_map (patterns : List Pattern) :
    canonicalPatterns patterns = patterns.map Pattern.canonical := by
  induction patterns with
  | nil => rfl
  | cons pattern patterns induction => rw [canonicalPatterns, induction, List.map_cons]

theorem canonicalPatternElements_eq_map (elements : List (Option Pattern)) :
    canonicalPatternElements elements = elements.map (Option.map Pattern.canonical) := by
  induction elements with
  | nil => rfl
  | cons element elements induction =>
      cases element <;> rw [canonicalPatternElements, induction] <;> rfl

def Property.canonical : Property → Property
  | .spread loc argument =>
    .spread loc (argument.canonical.grouped (argument.precedence < Precedence.assignment))
  | .field loc key value shorthand =>
    .field loc key.canonical
      (value.canonical.grouped (value.precedence < Precedence.assignment)) shorthand

theorem canonicalProperties_eq_map (properties : List Property) :
    canonicalProperties properties = properties.map Property.canonical := by
  induction properties with
  | nil => rfl
  | cons property properties induction =>
      cases property <;> rw [canonicalProperties, induction] <;> rfl

def PatternProperty.canonical : PatternProperty → PatternProperty
  | .rest loc argument => .rest loc argument.canonical
  | .field loc key value shorthand => .field loc key.canonical value.canonical shorthand

theorem canonicalPatternProperties_eq_map (properties : List PatternProperty) :
    canonicalPatternProperties properties = properties.map PatternProperty.canonical := by
  induction properties with
  | nil => rfl
  | cons property properties induction =>
      cases property <;> rw [canonicalPatternProperties, induction] <;> rfl

/-! ## Canonical patterns -/

namespace Pattern

@[simp] theorem kind_canonical (pattern : Pattern) : pattern.canonical.kind = pattern.kind := by
  cases pattern <;> simp only [canonical, kind]

@[simp] theorem isTarget_canonical (pattern : Pattern) :
    pattern.canonical.isTarget = pattern.isTarget := by
  cases pattern <;> simp only [canonical, isTarget]

@[simp] theorem isComposite_canonical (pattern : Pattern) :
    pattern.canonical.isComposite = pattern.isComposite := by
  cases pattern <;> simp only [canonical, isComposite]

mutual

@[simp] theorem boundNames_canonical : ∀ pattern : Pattern,
    pattern.canonical.boundNames = pattern.boundNames
  | .ident _ => by simp only [canonical]
  | .array _ elements => by simp only [canonical, boundNames, elementNames_canonical elements]
  | .object _ properties => by
      simp only [canonical, boundNames, propertyNames_canonical properties]
  | .rest _ argument => by simp only [canonical, boundNames, boundNames_canonical argument]
  | .withDefault _ target _ => by simp only [canonical, boundNames, boundNames_canonical target]

theorem elementNames_canonical : ∀ elements : List (Option Pattern),
    elementNames (canonicalPatternElements elements) = elementNames elements
  | [] => rfl
  | none :: elements => by
      simp only [canonicalPatternElements, elementNames, elementNames_canonical elements]
  | some pattern :: elements => by
      simp only [canonicalPatternElements, elementNames, boundNames_canonical pattern,
        elementNames_canonical elements]

theorem propertyNames_canonical : ∀ properties : List PatternProperty,
    propertyNames (canonicalPatternProperties properties) = propertyNames properties
  | [] => rfl
  | .field _ _ value _ :: properties => by
      simp only [canonicalPatternProperties, propertyNames, boundNames_canonical value,
        propertyNames_canonical properties]
  | .rest _ argument :: properties => by
      simp only [canonicalPatternProperties, propertyNames, boundNames_canonical argument,
        propertyNames_canonical properties]

end

end Pattern

theorem ParametersShape.legible {params : List Pattern} (shape : ParametersShape params) :
    ParametersLegible (canonicalPatterns params) := by
  rw [canonicalPatterns_eq_map]
  constructor
  · intro param member
    rw [← List.map_dropLast] at member
    rcases List.mem_map.mp member with ⟨original, within, rfl⟩
    rw [Pattern.kind_canonical]
    exact shape.1 original within
  · have distinct := shape.2
    have names : (params.map Pattern.canonical).flatMap Pattern.boundNames =
        params.flatMap Pattern.boundNames := by
      rw [List.flatMap_map]
      simp only [Pattern.boundNames_canonical]
    rw [names]
    unfold checkDistinctParameters at distinct
    split at distinct
    · cases distinct
    · next unique => exact unique

/-! ## No initializers -/

theorem Expr.hasInitializer_grouped {expr : Expr} (settled : expr.hasInitializer = false)
    (needed : Bool) : (expr.grouped needed).hasInitializer = false := by
  cases needed with
  | false => exact settled
  | true => rfl

mutual

/-- Shorthand properties with an initializer are parts of patterns only. -/
theorem Expr.hasInitializer_canonical : ∀ expr : Expr, expr.Everywhere writable →
    expr.canonical.hasInitializer = false
  | .array _ elements, ⟨_, inside⟩ => by
      rw [Expr.canonical, Expr.hasInitializer, elementsHaveInitializer_canonical elements inside]
  | .object _ properties, ⟨holds, inside⟩ => by
      rw [Expr.canonical, Expr.hasInitializer,
        propertiesHaveInitializer_canonical properties holds.1 inside]
  | .spread _ argument, ⟨_, inside⟩ => by
      rw [Expr.canonical, Expr.hasInitializer]
      exact Expr.hasInitializer_grouped (argument.hasInitializer_canonical inside) _
  | .number literal, _ => by
      rw [Expr.canonical, NumberLiteral.canonical]
      split <;> rfl
  | .update _ _ fixity _, _ => by
      cases fixity <;> rfl
  | .binary _ op _ _, _ => by
      rw [Expr.canonical]
      split <;> rfl
  | .member _ _ key _, _ => by
      cases key <;> rfl
  | .null _, _ | .boolean _ _, _ | .string _, _ | .regExp _ _ _, _ | .template _ _ _, _
  | .ident _, _ | .this _, _ | .paren _ _, _ | .arrow _ _ _, _ | .unary _ _ _, _
  | .logical _ _ _ _, _ | .conditional _ _ _ _, _ | .assign _ _ _ _, _ | .destructure _ _ _ _, _
  | .sequence _ _, _ | .call _ _ _ _, _ | .new _ _ _, _ | .tagged _ _ _ _ _, _ => rfl

theorem elementsHaveInitializer_canonical : ∀ elements : List (Option Expr),
    elementsInside writable elements →
      elementsHaveInitializer (canonicalElements elements) = false
  | [], _ => rfl
  | none :: elements, inside => elementsHaveInitializer_canonical elements inside
  | some item :: elements, ⟨inside, inside'⟩ => by
      rw [canonicalElements, elementsHaveInitializer,
        Expr.hasInitializer_grouped (item.hasInitializer_canonical inside),
        elementsHaveInitializer_canonical elements inside', Bool.or_false]

theorem propertiesHaveInitializer_canonical : ∀ properties : List Property,
    (∀ property ∈ properties, property.Shape) → propertiesInside writable properties →
      propertiesHaveInitializer (canonicalProperties properties) = false
  | [], _, _ => rfl
  | .spread _ argument :: properties, shape, ⟨inside, inside'⟩ => by
      have later := propertiesHaveInitializer_canonical properties
        (fun property member => shape property (List.mem_cons_of_mem _ member)) inside'
      rw [canonicalProperties, propertiesHaveInitializer,
        Expr.hasInitializer_grouped (argument.hasInitializer_canonical inside), later,
        Bool.or_false]
  | .field _ _ value shorthand :: properties, shape, ⟨⟨_, inside⟩, inside'⟩ => by
      have later := propertiesHaveInitializer_canonical properties
        (fun property member => shape property (List.mem_cons_of_mem _ member)) inside'
      have noAssignment : (shorthand && (value.canonical.grouped
          (value.precedence < Precedence.assignment)).isAssignment) = false := by
        cases shorthand with
        | false => rfl
        | true =>
            rcases (shape _ (List.mem_cons_self ..)).2.2 rfl with ⟨id, -, rfl⟩
            rfl
      rw [canonicalProperties, propertiesHaveInitializer, noAssignment,
        Expr.hasInitializer_grouped (value.hasInitializer_canonical inside), later]
      rfl

end

/-! ## Canonical operands -/

namespace Expr

variable {expr : Expr} {level : Nat} {needed : Bool}

theorem sequence_le_precedence (expr : Expr) : Precedence.sequence ≤ expr.precedence := by
  cases expr with
  | number literal =>
      rw [precedence, Number.precedence]
      split
      · decide
      · split <;> decide
  | logical loc op left right =>
      rw [precedence]
      cases op <;> decide
  | binary loc op left right =>
      rw [precedence]
      cases op with
      | arithmetic op => cases op <;> decide
      | _ => decide
  | update loc op fixity argument => cases fixity <;> simp [precedence]
  | _ => simp [precedence]

theorem isSpread_grouped (notSpread : expr.isSpread = false) (needed : Bool) :
    (expr.canonical.grouped needed).isSpread = false := by
  cases needed with
  | false => exact expr.isSpread_canonical.trans notSpread
  | true => rfl

/-- An operand settles where a level is demanded, if it has parentheses whenever it
binds less tightly. -/
theorem settles_grouped (notSpread : expr.isSpread = false) (holds : expr.Everywhere writable)
    (bound : level ≤ Precedence.primary) (demanded : expr.precedence < level → needed = true) :
    (expr.canonical.grouped needed).Settles level := by
  refine ⟨⟨isSpread_grouped notSpread needed, ?_⟩,
    hasInitializer_grouped (expr.hasInitializer_canonical holds) needed⟩
  cases needed with
  | true => exact bound
  | false =>
      have tight : ¬ expr.precedence < level := fun weak => Bool.false_ne_true (demanded weak)
      rw [grouped, if_neg (by simp), precedence_canonical]
      omega

theorem Operand.settles {level' : Nat} (operand : expr.Operand level')
    (holds : expr.Everywhere writable) (bound : level ≤ Precedence.primary) :
    (expr.canonical.grouped (expr.precedence < level)).Settles level :=
  settles_grouped operand.notSpread holds bound decide_eq_true

theorem Operand.settles_canonical (operand : expr.Operand Precedence.sequence)
    (holds : expr.Everywhere writable) : expr.canonical.Settles Precedence.sequence :=
  ⟨⟨expr.isSpread_canonical.trans operand.notSpread, sequence_le_precedence _⟩,
    expr.hasInitializer_canonical holds⟩

theorem legible_grouped (notSpread : needed = true → expr.isSpread = false)
    (holds : expr.Everywhere writable) (legible : expr.canonical.Everywhere legible) :
    (expr.canonical.grouped needed).Everywhere ExprScript.legible := by
  cases needed with
  | false => exact legible
  | true =>
      exact ⟨⟨⟨expr.isSpread_canonical.trans (notSpread rfl), sequence_le_precedence _⟩,
        expr.hasInitializer_canonical holds⟩, legible⟩

theorem legible_item (holds : expr.Everywhere writable)
    (legible : expr.canonical.Everywhere legible) :
    (expr.canonical.grouped (expr.precedence < Precedence.assignment)).Everywhere
      ExprScript.legible := by
  apply legible_grouped _ holds legible
  intro weak
  cases expr with
  | spread => simp [precedence] at weak
  | _ => rfl

theorem precedence_item (expr : Expr) : Precedence.assignment ≤
    (expr.canonical.grouped (expr.precedence < Precedence.assignment)).precedence := by
  have met := Demand.item.met expr
  exact Nat.not_lt.mp (of_decide_eq_false met)

theorem argument_item (holds : expr.Everywhere writable) :
    (expr.canonical.grouped (expr.precedence < Precedence.assignment)).LegibleArgument :=
  ⟨expr.precedence_item, hasInitializer_grouped (expr.hasInitializer_canonical holds) _⟩

theorem Settles.grouped (settles : expr.Settles level) (bound : level ≤ Precedence.primary)
    (needed : Bool) : (expr.grouped needed).Settles level := by
  cases needed with
  | false => exact settles
  | true => exact ⟨⟨rfl, bound⟩, rfl⟩

theorem Settles.legible_grouped (settles : expr.Settles level)
    (legible : expr.Everywhere legible) (needed : Bool) :
    (expr.grouped needed).Everywhere ExprScript.legible := by
  cases needed with
  | false => exact legible
  | true =>
      exact ⟨⟨⟨settles.notSpread, expr.sequence_le_precedence⟩, settles.settled⟩, legible⟩

theorem isSimpleTarget_grouped (simple : expr.isSimpleTarget = true) (needed : Bool) :
    (expr.canonical.grouped needed).isSimpleTarget = true := by
  cases needed with
  | false => exact isSimpleTarget_canonical simple
  | true => exact isSimpleTarget_canonical simple

end Expr

/-! ## Canonical words -/

theorem NumberLiteral.legible_respelled {literal : NumberLiteral} (writable : literal.Writable)
    (finite : literal.value.isInf = false) : literal.respelled.Legible :=
  ⟨Number.print_denotes writable.plain finite (writable.readsBack finite), rfl⟩

theorem NumberLiteral.legible_canonical {literal : NumberLiteral} (writable : literal.Writable) :
    literal.canonical.Everywhere legible := by
  have digits : Number.ReadsBack 1.0 ∧ Number.ReadsBack 0.0 := by
    constructor <;> decide
  rw [NumberLiteral.canonical]
  cases finite : literal.value.isInf with
  | true =>
      have one : (Expr.number { value := 1.0, raw := "1" }).Everywhere legible := by
        refine ⟨⟨⟨Number.print_denotes (by decide) (by decide) digits.1, by decide⟩, ?_⟩, trivial⟩
        decide
      have zero : (Expr.number { value := 0.0, raw := "0" }).Everywhere legible := by
        refine ⟨⟨⟨Number.print_denotes (by decide) (by decide) digits.2, by decide⟩, ?_⟩, trivial⟩
        decide
      exact ⟨⟨⟨⟨rfl, by decide⟩, rfl⟩, ⟨rfl, by decide⟩, rfl⟩, one, zero⟩
  | false =>
      refine ⟨⟨legible_respelled writable finite, ?_⟩, trivial⟩
      rcases writable.plain.precedence with isPrimary | infinite
      · exact isPrimary
      · rw [finite] at infinite
        cases infinite

theorem PropertyKey.legible_canonical {key : PropertyKey} (shape : key.Shape)
    (words : key.Writable) (holds : key.Inside writable) : key.canonical.Legible := by
  cases key with
  | name id => exact words
  | string literal => trivial
  | number literal => exact NumberLiteral.legible_respelled words.1 words.2
  | computed key => exact shape.settles holds (by decide)

theorem Property.legible_canonical {property : Property} (shape : property.Shape)
    (words : property.Writable) (holds : property.Inside writable) :
    property.canonical.Legible := by
  cases property with
  | spread loc argument => exact (shape.settles holds (by decide)).toBinds
  | field loc key value shorthand =>
      rcases shape with ⟨keyShape, operand, isShort⟩
      refine ⟨PropertyKey.legible_canonical keyShape words holds.1,
        (operand.settles holds.2 (by decide)).toBinds, fun short => ?_⟩
      rcases isShort short with ⟨id, rfl, rfl⟩
      exact ⟨id, rfl, .inl rfl⟩

theorem PatternProperty.legible_canonical {property : PatternProperty} (shape : property.Shape)
    (words : property.Writable) (holds : property.Inside writable) :
    property.canonical.Legible := by
  cases property with
  | rest loc argument =>
      rcases shape with ⟨id, rfl⟩
      exact ⟨id, rfl⟩
  | field loc key value shorthand =>
      rcases shape with ⟨keyShape, notRest, isShort⟩
      refine ⟨PropertyKey.legible_canonical keyShape words holds.1,
        by rwa [Pattern.kind_canonical], fun short => ?_⟩
      rcases isShort short with ⟨id, rfl, rfl | ⟨loc, fallback, rfl⟩⟩
      · exact ⟨id, rfl, .inl rfl⟩
      · exact ⟨id, rfl, .inr ⟨_, _, rfl⟩⟩

theorem TemplateShape.legible {quasis : List Quasi} {holes : List Expr}
    (shape : TemplateShape quasis holes)
    (words : ∀ quasi ∈ quasis, TemplateText quasi.raw.toList quasi.cooked.toList)
    (holds : itemsInside writable holes) : TemplateLegible quasis (canonicalHoles holes) := by
  rw [canonicalHoles_eq_map]
  refine ⟨?_, words, ?_⟩
  · rw [List.length_map]
    exact shape.1
  · intro hole member
    rcases List.mem_map.mp member with ⟨original, within, rfl⟩
    exact (shape.2 original within).settles_canonical
      ((itemsInside_iff writable holes).mp holds original within)

theorem legible_arguments {items : List Expr} (holds : itemsInside writable items) :
    ∀ item ∈ canonicalItems items, item.LegibleArgument := by
  intro item member
  rw [canonicalItems_eq_map] at member
  rcases List.mem_map.mp member with ⟨original, within, rfl⟩
  exact Expr.argument_item ((itemsInside_iff writable items).mp holds original within)

theorem settles_items {items : List Expr}
    (operands : ∀ item ∈ items, item.Operand Precedence.assignment)
    (holds : itemsInside writable items) :
    ∀ item ∈ canonicalItems items, item.Settles Precedence.assignment := by
  intro item member
  rw [canonicalItems_eq_map] at member
  rcases List.mem_map.mp member with ⟨original, within, rfl⟩
  exact (operands original within).settles
    ((itemsInside_iff writable items).mp holds original within) (by decide)

theorem precedence_elements (elements : List (Option Expr)) : ∀ item,
    some item ∈ canonicalElements elements → Precedence.assignment ≤ item.precedence := by
  intro item member
  rw [canonicalElements_eq_map] at member
  rcases List.mem_map.mp member with ⟨original, -, equal⟩
  rcases Option.map_eq_some_iff.mp equal with ⟨original, -, rfl⟩
  exact original.precedence_item

theorem length_canonicalItems (items : List Expr) :
    (canonicalItems items).length = items.length := by
  rw [canonicalItems_eq_map, List.length_map]

/-! ## Canonical trees -/

mutual

/-- The canonical form of a writable tree is legible. -/
theorem Expr.legible_canonical : ∀ expr : Expr, expr.Everywhere writable →
    expr.canonical.Everywhere legible
  | .null _, _ | .boolean _ _, _ | .string _, _ | .this _, _ => ⟨trivial, trivial⟩
  | .number _, ⟨⟨_, words⟩, _⟩ => NumberLiteral.legible_canonical words
  | .regExp _ _ _, ⟨⟨_, words⟩, _⟩ => ⟨words, trivial⟩
  | .ident _, ⟨⟨_, words⟩, _⟩ => ⟨words, trivial⟩
  | .template _ _ holes, ⟨⟨shape, words⟩, inside⟩ =>
      ⟨TemplateShape.legible shape words inside, canonicalHoles_legible holes inside⟩
  | .array _ elements, ⟨_, inside⟩ =>
      ⟨precedence_elements elements, canonicalElements_legible elements inside⟩
  | .object _ properties, ⟨⟨shape, words⟩, inside⟩ => by
      refine ⟨?_, canonicalProperties_legible properties inside⟩
      intro property member
      rw [canonicalProperties_eq_map] at member
      rcases List.mem_map.mp member with ⟨original, within, rfl⟩
      exact Property.legible_canonical (shape original within) (words original within)
        ((propertiesInside_iff writable properties).mp inside original within)
  | .paren _ inner, ⟨⟨shape, _⟩, inside⟩ =>
      ⟨shape.settles_canonical inside, inner.legible_canonical inside⟩
  | .arrow _ params body, ⟨⟨⟨params', operand⟩, _⟩, inside, inside'⟩ => by
      have legible := Expr.legible_item inside' (body.legible_canonical inside')
      have settles := operand.settles inside' (by decide : Precedence.assignment ≤ _)
      rw [Expr.canonical]
      generalize body.canonical.grouped _ = inner at legible settles
      refine ⟨⟨params'.legible, settles.grouped (by decide) _, ?_⟩,
        canonicalPatterns_legible params inside, settles.legible_grouped legible _⟩
      -- A body that starts with a brace has parentheses now.
      rw [Expr.print_grouped]
      exact startsWith_group _
  | .unary _ _ argument, ⟨⟨shape, _⟩, inside⟩ =>
      ⟨shape.settles inside (by decide),
        Expr.legible_grouped (fun _ => shape.notSpread) inside (argument.legible_canonical inside)⟩
  | .update _ _ fixity argument, ⟨⟨⟨simple, operand⟩, _⟩, inside⟩ => by
      have legible := argument.legible_canonical inside
      cases fixity with
      | before =>
          exact ⟨⟨Expr.isSimpleTarget_grouped simple _, operand.settles inside (by decide)⟩,
            Expr.legible_grouped (fun _ => operand.notSpread) inside legible⟩
      | after =>
          exact ⟨⟨Expr.isSimpleTarget_grouped simple _, operand.settles inside (by decide)⟩,
            Expr.legible_grouped (fun _ => operand.notSpread) inside legible⟩
  | .binary _ op left right, ⟨⟨shape, _⟩, inside, inside'⟩ => by
      have first := left.legible_canonical inside
      have second := right.legible_canonical inside'
      have bound := op.precedence_le
      rw [Expr.canonical]
      split
      · next isPower =>
          rw [Expr.Shape, if_pos isPower] at shape
          have notSpread : left.isSpread = false := by
            cases left with
            | spread => exact shape.1.notSpread
            | _ => rfl
          refine ⟨?_, Expr.legible_grouped (fun _ => notSpread) inside first,
            Expr.legible_grouped (fun _ => shape.2.notSpread) inside' second⟩
          change if _ then _ else _
          rw [if_pos isPower]
          exact ⟨Expr.settles_grouped notSpread inside (by decide) decide_eq_true,
            shape.2.settles inside' (by omega)⟩
      · next notPower =>
          rw [Expr.Shape, if_neg notPower] at shape
          refine ⟨?_, Expr.legible_grouped (fun _ => shape.1.notSpread) inside first,
            Expr.legible_grouped (fun _ => shape.2.notSpread) inside' second⟩
          change if _ then _ else _
          rw [if_neg notPower]
          exact ⟨shape.1.settles inside (by omega), shape.2.settles inside' bound⟩
  | .logical _ op left right, ⟨⟨⟨⟨operand, _⟩, operand', _⟩, _⟩, inside, inside'⟩ => by
      have bound := op.precedence_le
      have met := (Demand.logical op op.precedence (by omega)).met left
      have met' := (Demand.logical op (op.precedence + 1) bound).met right
      refine ⟨⟨⟨?_, (Bool.or_eq_false_iff.mp met).1⟩, ?_, (Bool.or_eq_false_iff.mp met').1⟩,
        Expr.legible_grouped (fun _ => operand.notSpread) inside (left.legible_canonical inside),
        Expr.legible_grouped (fun _ => operand'.notSpread) inside' (right.legible_canonical inside')⟩
      · exact Expr.settles_grouped operand.notSpread inside (by omega) fun weak => by simp [weak]
      · exact Expr.settles_grouped operand'.notSpread inside' bound fun weak => by simp [weak]
  | .conditional _ test consequent alternate,
      ⟨⟨⟨first, second, third⟩, _⟩, inside, inside', inside''⟩ =>
      ⟨⟨first.settles inside (by decide), second.settles inside' (by decide),
          third.settles inside'' (by decide)⟩,
        Expr.legible_grouped (fun _ => first.notSpread) inside (test.legible_canonical inside),
        Expr.legible_grouped (fun _ => second.notSpread) inside' (consequent.legible_canonical inside'),
        Expr.legible_grouped (fun _ => third.notSpread) inside'' (alternate.legible_canonical inside'')⟩
  | .assign _ _ target value, ⟨⟨⟨⟨simple, first⟩, second⟩, _⟩, inside, inside'⟩ =>
      ⟨⟨⟨Expr.isSimpleTarget_grouped simple _, first.settles inside (by decide)⟩,
          second.settles inside' (by decide)⟩,
        Expr.legible_grouped (fun _ => first.notSpread) inside (target.legible_canonical inside),
        Expr.legible_grouped (fun _ => second.notSpread) inside' (value.legible_canonical inside')⟩
  | .destructure _ _ pattern value, ⟨⟨⟨isPlain, composite, operand⟩, _⟩, inside, inside'⟩ =>
      ⟨⟨isPlain, pattern.isComposite_canonical.trans composite, operand.settles inside' (by decide)⟩,
        pattern.legible_canonical inside,
        Expr.legible_grouped (fun _ => operand.notSpread) inside' (value.legible_canonical inside')⟩
  | .sequence _ items, ⟨⟨⟨several, operands⟩, _⟩, inside⟩ =>
      ⟨⟨(length_canonicalItems items).symm ▸ several, settles_items operands inside⟩,
        canonicalItems_legible items inside⟩
  | .member _ owner key optional, ⟨⟨⟨operand, keyShape⟩, words⟩, inside, inside'⟩ => by
      have legible := owner.legible_canonical inside
      cases key with
      | name id =>
          have met := Demand.owner.met owner
          refine ⟨⟨?_, words, (Bool.or_eq_false_iff.mp met).1⟩,
            Expr.legible_grouped (fun _ => operand.notSpread) inside legible, trivial⟩
          exact Expr.settles_grouped operand.notSpread inside (by decide) fun weak => by simp [weak]
      | computed key =>
          exact ⟨⟨operand.settles inside (by decide), keyShape.settles_canonical inside'⟩,
            Expr.legible_grouped (fun _ => operand.notSpread) inside legible,
            key.legible_canonical inside'⟩
  | .call _ callee arguments _, ⟨⟨⟨operand, _⟩, _⟩, inside, inside'⟩ =>
      ⟨⟨operand.settles inside (by decide), legible_arguments inside'⟩,
        Expr.legible_grouped (fun _ => operand.notSpread) inside (callee.legible_canonical inside),
        canonicalItems_legible arguments inside'⟩
  | .new _ callee arguments, ⟨⟨⟨⟨operand, _⟩, _⟩, _⟩, inside, inside'⟩ => by
      have met := Demand.new.met callee
      refine ⟨⟨⟨?_, (Bool.or_eq_false_iff.mp met).1⟩, legible_arguments inside'⟩,
        Expr.legible_grouped (fun _ => operand.notSpread) inside (callee.legible_canonical inside),
        canonicalItems_legible arguments inside'⟩
      exact Expr.settles_grouped operand.notSpread inside (by decide) fun weak => by simp [weak]
  | .tagged _ tag _ _ holes, ⟨⟨⟨⟨operand, _⟩, shape⟩, words⟩, inside, inside'⟩ => by
      have met := Demand.tag.met tag
      refine ⟨⟨⟨?_, (Bool.or_eq_false_iff.mp met).1⟩, shape.legible words inside'⟩,
        Expr.legible_grouped (fun _ => operand.notSpread) inside (tag.legible_canonical inside),
        canonicalHoles_legible holes inside'⟩
      exact Expr.settles_grouped operand.notSpread inside (by decide) fun weak => by simp [weak]
  | .spread _ argument, ⟨⟨shape, _⟩, inside⟩ =>
      ⟨(shape.settles inside (by decide)).toBinds,
        Expr.legible_item inside (argument.legible_canonical inside)⟩

theorem canonicalHoles_legible : ∀ holes : List Expr, itemsInside writable holes →
    itemsInside legible (canonicalHoles holes)
  | [], _ => trivial
  | hole :: holes, ⟨inside, inside'⟩ =>
      ⟨hole.legible_canonical inside, canonicalHoles_legible holes inside'⟩

theorem canonicalItems_legible : ∀ items : List Expr, itemsInside writable items →
    itemsInside legible (canonicalItems items)
  | [], _ => trivial
  | item :: items, ⟨inside, inside'⟩ =>
      ⟨Expr.legible_item inside (item.legible_canonical inside),
        canonicalItems_legible items inside'⟩

theorem canonicalElements_legible : ∀ elements : List (Option Expr),
    elementsInside writable elements → elementsInside legible (canonicalElements elements)
  | [], _ => trivial
  | none :: elements, inside => canonicalElements_legible elements inside
  | some item :: elements, ⟨inside, inside'⟩ =>
      ⟨Expr.legible_item inside (item.legible_canonical inside),
        canonicalElements_legible elements inside'⟩

theorem canonicalProperties_legible : ∀ properties : List Property,
    propertiesInside writable properties →
      propertiesInside legible (canonicalProperties properties)
  | [], _ => trivial
  | .spread _ argument :: properties, ⟨inside, inside'⟩ =>
      ⟨Expr.legible_item inside (argument.legible_canonical inside),
        canonicalProperties_legible properties inside'⟩
  | .field _ key value _ :: properties, ⟨⟨keyInside, inside⟩, inside'⟩ =>
      ⟨⟨key.inside_canonical keyInside,
          Expr.legible_item inside (value.legible_canonical inside)⟩,
        canonicalProperties_legible properties inside'⟩

theorem PropertyKey.inside_canonical : ∀ key : PropertyKey, key.Inside writable →
    key.canonical.Inside legible
  | .name _, _ | .string _, _ | .number _, _ => trivial
  | .computed key, inside => Expr.legible_item inside (key.legible_canonical inside)

theorem Pattern.legible_canonical : ∀ pattern : Pattern, pattern.Everywhere writable →
    pattern.canonical.Everywhere legible
  | .ident _, ⟨⟨_, words⟩, _⟩ => ⟨words, trivial⟩
  | .array _ elements, ⟨⟨shape, _⟩, inside⟩ => by
      refine ⟨?_, canonicalPatternElements_legible elements inside⟩
      intro pattern member
      rw [canonicalPatternElements_eq_map, ← List.map_dropLast] at member
      rcases List.mem_map.mp member with ⟨original, within, equal⟩
      rcases Option.map_eq_some_iff.mp equal with ⟨original, rfl, rfl⟩
      rw [Pattern.kind_canonical]
      exact shape original within
  | .object _ properties, ⟨⟨shape, words⟩, inside⟩ => by
      refine ⟨⟨?_, ?_⟩, canonicalPatternProperties_legible properties inside⟩
      · intro property member
        rw [canonicalPatternProperties_eq_map] at member
        rcases List.mem_map.mp member with ⟨original, within, rfl⟩
        exact PatternProperty.legible_canonical (shape.1 original within) (words original within)
          ((patternPropertiesInside_iff writable properties).mp inside original within)
      · intro loc argument member
        rw [canonicalPatternProperties_eq_map, ← List.map_dropLast] at member
        rcases List.mem_map.mp member with ⟨original, within, equal⟩
        cases original with
        | rest loc' argument' => exact shape.2 loc' argument' within
        | field => cases equal
  | .rest _ argument, ⟨⟨shape, _⟩, inside⟩ =>
      ⟨argument.isTarget_canonical.trans shape, argument.legible_canonical inside⟩
  | .withDefault _ target value, ⟨⟨⟨isTarget, operand⟩, _⟩, inside, inside'⟩ =>
      ⟨⟨target.isTarget_canonical.trans isTarget, operand.settles inside' (by decide)⟩,
        target.legible_canonical inside,
        Expr.legible_item inside' (value.legible_canonical inside')⟩

theorem canonicalPatterns_legible : ∀ patterns : List Pattern, patternsInside writable patterns →
    patternsInside legible (canonicalPatterns patterns)
  | [], _ => trivial
  | pattern :: patterns, ⟨inside, inside'⟩ =>
      ⟨pattern.legible_canonical inside, canonicalPatterns_legible patterns inside'⟩

theorem canonicalPatternElements_legible : ∀ elements : List (Option Pattern),
    patternElementsInside writable elements →
      patternElementsInside legible (canonicalPatternElements elements)
  | [], _ => trivial
  | none :: elements, inside => canonicalPatternElements_legible elements inside
  | some pattern :: elements, ⟨inside, inside'⟩ =>
      ⟨pattern.legible_canonical inside, canonicalPatternElements_legible elements inside'⟩

theorem canonicalPatternProperties_legible : ∀ properties : List PatternProperty,
    patternPropertiesInside writable properties →
      patternPropertiesInside legible (canonicalPatternProperties properties)
  | [], _ => trivial
  | .rest _ argument :: properties, ⟨inside, inside'⟩ =>
      ⟨argument.legible_canonical inside, canonicalPatternProperties_legible properties inside'⟩
  | .field _ key value _ :: properties, ⟨⟨keyInside, inside⟩, inside'⟩ =>
      ⟨⟨key.inside_canonical keyInside, value.legible_canonical inside⟩,
        canonicalPatternProperties_legible properties inside'⟩

end

end ExprScript
