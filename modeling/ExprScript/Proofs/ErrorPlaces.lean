import ExprScript.Proofs.Span.Expression
import ExprScript.Proofs.Strict.Expression
import ExprScript.Proofs.SyntaxErrors

/-! # Places of errors at run time

Operators, properties, iterations and functions of the host fail without a place; the
node that asked for them is blamed. The nodes of parsed expressions stand in the text
that they were read from, and so do the nodes of the functions that they create.
-/

namespace ExprScript

namespace Outline

mutual

def Begins (place : Position → Prop) : Outline → Prop
  | node span parts => place span.start ∧ PartsBegin place parts

def PartsBegin (place : Position → Prop) : List Outline → Prop
  | [] => True
  | part :: parts => part.Begins place ∧ PartsBegin place parts

end

variable {place : Position → Prop}

mutual

theorem begins_of_spans : ∀ outline : Outline, (∀ span ∈ outline.spans, place span.start) →
    outline.Begins place
  | node span parts, holds =>
    ⟨holds span List.mem_cons_self,
      partsBegin_of_spans parts fun _ member => holds _ (List.mem_cons_of_mem span member)⟩

theorem partsBegin_of_spans : ∀ parts : List Outline,
    (∀ span ∈ partSpans parts, place span.start) → PartsBegin place parts
  | [], _ => trivial
  | part :: parts, holds =>
    ⟨begins_of_spans part fun _ member => holds _ (List.mem_append_left _ member),
      partsBegin_of_spans parts fun _ member => holds _ (List.mem_append_right _ member)⟩

end

theorem partsBegin_append {parts others : List Outline} :
    PartsBegin place (parts ++ others) ↔ PartsBegin place parts ∧ PartsBegin place others := by
  induction parts with
  | nil => exact (iff_of_eq (true_and _)).symm
  | cons part parts induction =>
      exact (and_congr_right fun _ => induction).trans and_assoc.symm

theorem PartsBegin.holes (quasis : List Quasi) {holes : List Outline}
    (begin : PartsBegin place (templateOutlines quasis holes)) : PartsBegin place holes := by
  induction quasis generalizing holes with
  | nil => exact begin
  | cons quasi quasis induction =>
      cases holes with
      | nil => trivial
      | cons hole holes => exact ⟨begin.2.1, induction begin.2.2⟩

end Outline

/-! ## Nodes of trees -/

/-- The nodes of a tree begin at such places. The properties of a pattern are nodes of
their own. -/
def beginning (place : Position → Prop) : Condition where
  expr := fun expr => place expr.loc.start
  pattern := fun pattern => place pattern.loc.start ∧
    ∀ patternLoc properties, pattern = .object patternLoc properties →
      ∀ loc key value shorthand, PatternProperty.field loc key value shorthand ∈ properties →
        place loc.start

section

open Outline

variable {place : Position → Prop}

theorem patternProperty_begins {properties : List PatternProperty}
    (begin : PartsBegin place (patternPropertyOutlines properties)) {property : PatternProperty}
    (member : property ∈ properties) : property.outline.Begins place := by
  induction properties with
  | nil => cases member
  | cons first properties induction =>
      rcases List.mem_cons.mp member with rfl | member
      · exact begin.1
      · exact induction begin.2 member

/-- A key that is left out of the outline has nothing inside. -/
theorem PropertyKey.begins_or_name {loc : Span} {key : PropertyKey} {value : Outline}
    {name? : Option Ident}
    (begins : Begins place (.node loc (if key.isLeading name? then [value]
      else [key.outline, value]))) :
    ((∃ id, key = .name id) ∨ key.outline.Begins place) ∧ value.Begins place := by
  have parts := begins.2
  split at parts
  · next leading =>
      cases key with
      | name id => exact ⟨.inl ⟨id, rfl⟩, parts.1⟩
      | _ => cases leading
  · exact ⟨.inr parts.1, parts.2.1⟩

mutual

theorem Expr.everywhere_beginning : ∀ expr : Expr, expr.outline.Begins place →
    expr.Everywhere (beginning place)
  | .null _, begins | .boolean _ _, begins | .number _, begins | .string _, begins
  | .regExp _ _ _, begins | .ident _, begins | .this _, begins => ⟨begins.1, trivial⟩
  | .template _ quasis holes, begins =>
    ⟨begins.1, itemsInside_beginning holes (PartsBegin.holes quasis begins.2)⟩
  | .array _ elements, begins => ⟨begins.1, elementsInside_beginning elements begins.2⟩
  | .object _ properties, begins => ⟨begins.1, propertiesInside_beginning properties begins.2⟩
  | .paren _ inner, begins => ⟨begins.1, inner.everywhere_beginning begins.2.1⟩
  | .arrow _ params body, begins =>
    ⟨begins.1, patternsInside_beginning params (partsBegin_append.mp begins.2).1,
      body.everywhere_beginning (partsBegin_append.mp begins.2).2.1⟩
  | .unary _ _ argument, begins | .update _ _ _ argument, begins | .spread _ argument, begins =>
    ⟨begins.1, argument.everywhere_beginning begins.2.1⟩
  | .binary _ _ left right, begins | .logical _ _ left right, begins
  | .assign _ _ left right, begins =>
    ⟨begins.1, left.everywhere_beginning begins.2.1, right.everywhere_beginning begins.2.2.1⟩
  | .conditional _ test consequent alternate, begins =>
    ⟨begins.1, test.everywhere_beginning begins.2.1,
      consequent.everywhere_beginning begins.2.2.1,
      alternate.everywhere_beginning begins.2.2.2.1⟩
  | .destructure _ _ pattern value, begins =>
    ⟨begins.1, pattern.everywhere_beginning begins.2.1, value.everywhere_beginning begins.2.2.1⟩
  | .sequence _ items, begins => ⟨begins.1, itemsInside_beginning items begins.2⟩
  | .member _ owner key _, begins =>
    ⟨begins.1, owner.everywhere_beginning begins.2.1, key.inside_beginning begins.2.2.1⟩
  | .call _ callee arguments _, begins | .new _ callee arguments, begins =>
    ⟨begins.1, callee.everywhere_beginning begins.2.1, itemsInside_beginning arguments begins.2.2⟩
  | .tagged _ tag _ quasis holes, begins =>
    ⟨begins.1, tag.everywhere_beginning begins.2.1,
      itemsInside_beginning holes (PartsBegin.holes quasis begins.2.2.1.2)⟩

theorem itemsInside_beginning : ∀ items : List Expr, PartsBegin place (itemOutlines items) →
    itemsInside (beginning place) items
  | [], _ => trivial
  | item :: items, begin => ⟨item.everywhere_beginning begin.1, itemsInside_beginning items begin.2⟩

theorem elementsInside_beginning : ∀ elements : List (Option Expr),
    PartsBegin place (elementOutlines elements) → elementsInside (beginning place) elements
  | [], _ => trivial
  | none :: elements, begin => elementsInside_beginning elements begin
  | some item :: elements, begin =>
    ⟨item.everywhere_beginning begin.1, elementsInside_beginning elements begin.2⟩

theorem Property.inside_beginning : ∀ property : Property, property.outline.Begins place →
    property.Inside (beginning place)
  | .field _ key value _, begins =>
    ⟨key.inside_beginning (PropertyKey.begins_or_name begins).1,
      value.everywhere_beginning (PropertyKey.begins_or_name begins).2⟩
  | .spread _ argument, begins => argument.everywhere_beginning begins.2.1

theorem propertiesInside_beginning : ∀ properties : List Property,
    PartsBegin place (propertyOutlines properties) →
      propertiesInside (beginning place) properties
  | [], _ => trivial
  | property :: properties, begin =>
    ⟨property.inside_beginning begin.1, propertiesInside_beginning properties begin.2⟩

theorem PropertyKey.inside_beginning : ∀ key : PropertyKey,
    (∃ id, key = .name id) ∨ key.outline.Begins place → key.Inside (beginning place)
  | .computed key, begins => key.everywhere_beginning (begins.resolve_left nofun)
  | .name _, _ | .string _, _ | .number _, _ => trivial

theorem MemberKey.inside_beginning : ∀ key : MemberKey, key.outline.Begins place →
    key.Inside (beginning place)
  | .computed key, begins => key.everywhere_beginning begins
  | .name _, _ => trivial

theorem Pattern.everywhere_beginning : ∀ pattern : Pattern, pattern.outline.Begins place →
    pattern.Everywhere (beginning place)
  | .ident _, begins => ⟨⟨begins.1, nofun⟩, trivial⟩
  | .array _ elements, begins =>
    ⟨⟨begins.1, nofun⟩, patternElementsInside_beginning elements begins.2⟩
  | .object _ properties, begins => by
      refine ⟨⟨begins.1, ?_⟩, patternPropertiesInside_beginning properties begins.2⟩
      intro _ _ isObject loc key value shorthand member
      cases isObject
      exact (patternProperty_begins begins.2 member).1
  | .rest _ argument, begins =>
    ⟨⟨begins.1, nofun⟩, argument.everywhere_beginning begins.2.1⟩
  | .withDefault _ target value, begins =>
    ⟨⟨begins.1, nofun⟩, target.everywhere_beginning begins.2.1,
      value.everywhere_beginning begins.2.2.1⟩

theorem patternsInside_beginning : ∀ patterns : List Pattern,
    PartsBegin place (patternOutlines patterns) → patternsInside (beginning place) patterns
  | [], _ => trivial
  | pattern :: patterns, begin =>
    ⟨pattern.everywhere_beginning begin.1, patternsInside_beginning patterns begin.2⟩

theorem patternElementsInside_beginning : ∀ elements : List (Option Pattern),
    PartsBegin place (patternElementOutlines elements) →
      patternElementsInside (beginning place) elements
  | [], _ => trivial
  | none :: elements, begin => patternElementsInside_beginning elements begin
  | some pattern :: elements, begin =>
    ⟨pattern.everywhere_beginning begin.1, patternElementsInside_beginning elements begin.2⟩

theorem PatternProperty.inside_beginning : ∀ property : PatternProperty,
    property.outline.Begins place → property.Inside (beginning place)
  | .field _ key value _, begins =>
    ⟨key.inside_beginning (PropertyKey.begins_or_name begins).1,
      value.everywhere_beginning (PropertyKey.begins_or_name begins).2⟩
  | .rest _ argument, begins => argument.everywhere_beginning begins.2.1

theorem patternPropertiesInside_beginning : ∀ properties : List PatternProperty,
    PartsBegin place (patternPropertyOutlines properties) →
      patternPropertiesInside (beginning place) properties
  | [], _ => trivial
  | property :: properties, begin =>
    ⟨property.inside_beginning begin.1, patternPropertiesInside_beginning properties begin.2⟩

end

end

/-! ## Errors with places -/

/-- Errors are blamed on such places alone. A call may end with an error that has no place
yet. -/
def Policy.placed (place : Position → Prop) : Policy where
  place
  error := fun failure => place failure.position
  raw := fun failure => failure.position.isUnknown = true ∨ place failure.position
  unplaced := fun _ _ => .inl rfl
  anchored := by
    intro failure position isRaw isPlace
    unfold Error.anchoredAt
    split
    · exact isPlace
    · next known => exact isRaw.resolve_left known
  passed := .inr

/-- Errors have a place. -/
abbrev Policy.located : Policy := Policy.placed fun position => position.isUnknown = false

/-- All functions in the reach of a scope, and of the values that are remembered for the
tree, are good. -/
structure World.Provides (good : FunctionValue → Prop) (tree : Nat) (scope : Scope)
    (useMemo : Bool) (world : World) : Prop where
  visible : ∀ frame ∈ scope.frames, world.heap.Trusted good (.object frame)
  remembered : useMemo = true → ∀ path value, world.memo.get? ⟨tree, path⟩ = some value →
    world.heap.Trusted good value

theorem World.Provides.mono {good better : FunctionValue → Prop} {tree : Nat} {scope : Scope}
    {useMemo : Bool} {world : World} (provides : world.Provides good tree scope useMemo)
    (improves : ∀ function, good function → better function) :
    world.Provides better tree scope useMemo where
  visible := fun frame member ref reaches =>
    improves _ (provides.visible frame member ref reaches)
  remembered := fun uses path value found ref reaches =>
    improves _ (provides.remembered uses path value found ref reaches)

section

variable {place : Position → Prop} {source : String} {strict : Bool} {expr : Expr}

end

end ExprScript
