import ExprScript.Eval.Basic
import ExprScript.Proofs.Tree.RoundTrip

/-! # The keys of a printed tree

The keys of an object are printed with it. A number among them is printed like any other
number, and that is read as a key again if the number is finite: the printed tree has the keys
of the tree that was printed. An infinite number is printed as a division, which is no key.
-/

namespace ExprScript

/-! ## Names of properties -/

/-- The property that a key stands for, unless it is yet to be computed. -/
def PropertyKey.property? : PropertyKey → Option String
  | .name id => some id.name
  | .string literal => some literal.value
  | .number literal => some (Number.toText literal.value)
  | .computed _ => none

namespace Eval

theorem evalPropertyKey_of_property? {key : PropertyKey} {name : String}
    (stands : key.property? = some name) (context : Context) (path : Path) :
    evalPropertyKey context path key = pure name := by
  cases key with
  | computed key => cases stands
  | _ =>
      cases stands
      rw [evalPropertyKey]

theorem evalPatternKey_of_property? {key : PropertyKey} {name : String}
    (stands : key.property? = some name) (context : Context) (path : Path) (bindings : Record) :
    evalPatternKey context path bindings key = pure name := by
  cases key with
  | computed key => cases stands
  | _ =>
      cases stands
      rw [evalPatternKey]

end Eval

mutual

/-- What the keys of the object literals and object patterns of a tree stand for, from left to
right. -/
def Expr.keyNames : Expr → List (Option String)
  | .null _ | .boolean _ _ | .number _ | .string _ | .regExp _ _ _ | .ident _ | .this _ => []
  | .template _ _ holes => itemsKeyNames holes
  | .array _ elements => elementsKeyNames elements
  | .object _ properties => propertiesKeyNames properties
  | .paren _ inner => inner.keyNames
  | .arrow _ params body => patternsKeyNames params ++ body.keyNames
  | .unary _ _ argument => argument.keyNames
  | .update _ _ _ argument => argument.keyNames
  | .binary _ _ left right => left.keyNames ++ right.keyNames
  | .logical _ _ left right => left.keyNames ++ right.keyNames
  | .conditional _ test consequent alternate =>
    test.keyNames ++ consequent.keyNames ++ alternate.keyNames
  | .assign _ _ target value => target.keyNames ++ value.keyNames
  | .destructure _ _ pattern value => pattern.keyNames ++ value.keyNames
  | .sequence _ items => itemsKeyNames items
  | .member _ owner key _ => owner.keyNames ++ key.keyNames
  | .call _ callee arguments _ => callee.keyNames ++ itemsKeyNames arguments
  | .new _ callee arguments => callee.keyNames ++ itemsKeyNames arguments
  | .tagged _ tag _ _ holes => tag.keyNames ++ itemsKeyNames holes
  | .spread _ argument => argument.keyNames

def itemsKeyNames : List Expr → List (Option String)
  | [] => []
  | item :: items => item.keyNames ++ itemsKeyNames items

def elementsKeyNames : List (Option Expr) → List (Option String)
  | [] => []
  | none :: elements => elementsKeyNames elements
  | some item :: elements => item.keyNames ++ elementsKeyNames elements

def propertiesKeyNames : List Property → List (Option String)
  | [] => []
  | .spread _ argument :: properties => argument.keyNames ++ propertiesKeyNames properties
  | .field _ key value _ :: properties =>
    key.property? :: (key.keyNames ++ value.keyNames ++ propertiesKeyNames properties)

def PropertyKey.keyNames : PropertyKey → List (Option String)
  | .computed key => key.keyNames
  | .name _ | .string _ | .number _ => []

def MemberKey.keyNames : MemberKey → List (Option String)
  | .computed key => key.keyNames
  | .name _ => []

def Pattern.keyNames : Pattern → List (Option String)
  | .ident _ => []
  | .array _ elements => patternElementsKeyNames elements
  | .object _ properties => patternPropertiesKeyNames properties
  | .rest _ argument => argument.keyNames
  | .withDefault _ target value => target.keyNames ++ value.keyNames

def patternsKeyNames : List Pattern → List (Option String)
  | [] => []
  | pattern :: patterns => pattern.keyNames ++ patternsKeyNames patterns

def patternElementsKeyNames : List (Option Pattern) → List (Option String)
  | [] => []
  | none :: elements => patternElementsKeyNames elements
  | some pattern :: elements => pattern.keyNames ++ patternElementsKeyNames elements

def patternPropertiesKeyNames : List PatternProperty → List (Option String)
  | [] => []
  | .rest _ argument :: properties => argument.keyNames ++ patternPropertiesKeyNames properties
  | .field _ key value _ :: properties =>
    key.property? :: (key.keyNames ++ value.keyNames ++ patternPropertiesKeyNames properties)

end

/-! ## Places do not matter -/

theorem PropertyKey.property?_erase (key : PropertyKey) : key.erase.property? = key.property? := by
  cases key <;> simp only [erase, property?, Ident.erase, StringLiteral.erase, NumberLiteral.erase]

mutual

theorem Expr.keyNames_erase : ∀ expr : Expr, expr.erase.keyNames = expr.keyNames
  | .null _ | .boolean _ _ | .number _ | .string _ | .regExp _ _ _ | .ident _ | .this _ => by
      simp only [Expr.erase, Expr.keyNames]
  | .template _ _ holes => by simp only [Expr.erase, Expr.keyNames, itemsKeyNames_erase holes]
  | .array _ elements => by
      simp only [Expr.erase, Expr.keyNames, elementsKeyNames_erase elements]
  | .object _ properties => by
      simp only [Expr.erase, Expr.keyNames, propertiesKeyNames_erase properties]
  | .paren _ inner => by simp only [Expr.erase, Expr.keyNames, inner.keyNames_erase]
  | .arrow _ params body => by
      simp only [Expr.erase, Expr.keyNames, patternsKeyNames_erase params, body.keyNames_erase]
  | .unary _ _ argument => by simp only [Expr.erase, Expr.keyNames, argument.keyNames_erase]
  | .update _ _ _ argument => by simp only [Expr.erase, Expr.keyNames, argument.keyNames_erase]
  | .binary _ _ left right => by
      simp only [Expr.erase, Expr.keyNames, left.keyNames_erase, right.keyNames_erase]
  | .logical _ _ left right => by
      simp only [Expr.erase, Expr.keyNames, left.keyNames_erase, right.keyNames_erase]
  | .conditional _ test consequent alternate => by
      simp only [Expr.erase, Expr.keyNames, test.keyNames_erase, consequent.keyNames_erase,
        alternate.keyNames_erase]
  | .assign _ _ target value => by
      simp only [Expr.erase, Expr.keyNames, target.keyNames_erase, value.keyNames_erase]
  | .destructure _ _ pattern value => by
      simp only [Expr.erase, Expr.keyNames, pattern.keyNames_erase, value.keyNames_erase]
  | .sequence _ items => by simp only [Expr.erase, Expr.keyNames, itemsKeyNames_erase items]
  | .member _ owner key _ => by
      simp only [Expr.erase, Expr.keyNames, owner.keyNames_erase, key.keyNames_erase]
  | .call _ callee arguments _ => by
      simp only [Expr.erase, Expr.keyNames, callee.keyNames_erase, itemsKeyNames_erase arguments]
  | .new _ callee arguments => by
      simp only [Expr.erase, Expr.keyNames, callee.keyNames_erase, itemsKeyNames_erase arguments]
  | .tagged _ tag _ _ holes => by
      simp only [Expr.erase, Expr.keyNames, tag.keyNames_erase, itemsKeyNames_erase holes]
  | .spread _ argument => by simp only [Expr.erase, Expr.keyNames, argument.keyNames_erase]

theorem itemsKeyNames_erase : ∀ items : List Expr,
    itemsKeyNames (eraseItems items) = itemsKeyNames items
  | [] => rfl
  | item :: items => by
      simp only [eraseItems, itemsKeyNames, item.keyNames_erase, itemsKeyNames_erase items]

theorem elementsKeyNames_erase : ∀ elements : List (Option Expr),
    elementsKeyNames (eraseElements elements) = elementsKeyNames elements
  | [] => rfl
  | none :: elements => by
      simp only [eraseElements, elementsKeyNames, elementsKeyNames_erase elements]
  | some item :: elements => by
      simp only [eraseElements, elementsKeyNames, item.keyNames_erase,
        elementsKeyNames_erase elements]

theorem propertiesKeyNames_erase : ∀ properties : List Property,
    propertiesKeyNames (eraseProperties properties) = propertiesKeyNames properties
  | [] => rfl
  | .spread _ argument :: properties => by
      simp only [eraseProperties, Property.erase, propertiesKeyNames, argument.keyNames_erase,
        propertiesKeyNames_erase properties]
  | .field _ key value _ :: properties => by
      simp only [eraseProperties, Property.erase, propertiesKeyNames, key.property?_erase,
        key.keyNames_erase, value.keyNames_erase, propertiesKeyNames_erase properties]

theorem PropertyKey.keyNames_erase : ∀ key : PropertyKey, key.erase.keyNames = key.keyNames
  | .name _ | .string _ | .number _ => by simp only [PropertyKey.erase, PropertyKey.keyNames]
  | .computed key => by simp only [PropertyKey.erase, PropertyKey.keyNames, key.keyNames_erase]

theorem MemberKey.keyNames_erase : ∀ key : MemberKey, key.erase.keyNames = key.keyNames
  | .name _ => by simp only [MemberKey.erase, MemberKey.keyNames]
  | .computed key => by simp only [MemberKey.erase, MemberKey.keyNames, key.keyNames_erase]

theorem Pattern.keyNames_erase : ∀ pattern : Pattern, pattern.erase.keyNames = pattern.keyNames
  | .ident _ => by simp only [Pattern.erase, Pattern.keyNames]
  | .array _ elements => by
      simp only [Pattern.erase, Pattern.keyNames, patternElementsKeyNames_erase elements]
  | .object _ properties => by
      simp only [Pattern.erase, Pattern.keyNames, patternPropertiesKeyNames_erase properties]
  | .rest _ argument => by simp only [Pattern.erase, Pattern.keyNames, argument.keyNames_erase]
  | .withDefault _ target value => by
      simp only [Pattern.erase, Pattern.keyNames, target.keyNames_erase, value.keyNames_erase]

theorem patternsKeyNames_erase : ∀ patterns : List Pattern,
    patternsKeyNames (erasePatterns patterns) = patternsKeyNames patterns
  | [] => rfl
  | pattern :: patterns => by
      simp only [erasePatterns, patternsKeyNames, pattern.keyNames_erase,
        patternsKeyNames_erase patterns]

theorem patternElementsKeyNames_erase : ∀ elements : List (Option Pattern),
    patternElementsKeyNames (erasePatternElements elements) = patternElementsKeyNames elements
  | [] => rfl
  | none :: elements => by
      simp only [erasePatternElements, patternElementsKeyNames,
        patternElementsKeyNames_erase elements]
  | some pattern :: elements => by
      simp only [erasePatternElements, patternElementsKeyNames, pattern.keyNames_erase,
        patternElementsKeyNames_erase elements]

theorem patternPropertiesKeyNames_erase : ∀ properties : List PatternProperty,
    patternPropertiesKeyNames (erasePatternProperties properties) =
      patternPropertiesKeyNames properties
  | [] => rfl
  | .rest _ argument :: properties => by
      simp only [erasePatternProperties, PatternProperty.erase, patternPropertiesKeyNames,
        argument.keyNames_erase, patternPropertiesKeyNames_erase properties]
  | .field _ key value _ :: properties => by
      simp only [erasePatternProperties, PatternProperty.erase, patternPropertiesKeyNames,
        key.property?_erase, key.keyNames_erase, value.keyNames_erase,
        patternPropertiesKeyNames_erase properties]

end

/-! ## Parentheses do not matter -/

@[simp] theorem Expr.keyNames_grouped (needed : Bool) (expr : Expr) :
    (expr.grouped needed).keyNames = expr.keyNames := by
  cases needed with
  | false => rfl
  | true => rw [Expr.grouped, if_pos rfl, Expr.keyNames]

theorem NumberLiteral.keyNames_canonical (literal : NumberLiteral) :
    literal.canonical.keyNames = [] := by
  rw [NumberLiteral.canonical]
  split <;> simp only [Expr.keyNames, List.append_nil]

theorem PropertyKey.property?_canonical (key : PropertyKey) :
    key.canonical.property? = key.property? := by
  cases key <;> simp only [canonical, property?, NumberLiteral.respelled]

mutual

theorem Expr.keyNames_canonical : ∀ expr : Expr, expr.canonical.keyNames = expr.keyNames
  | .null _ | .boolean _ _ | .string _ | .regExp _ _ _ | .ident _ | .this _ => by
      simp only [Expr.canonical]
  | .number literal => by
      rw [Expr.canonical, literal.keyNames_canonical, Expr.keyNames]
  | .template _ _ holes => by
      simp only [Expr.canonical, Expr.keyNames, holesKeyNames_canonical holes]
  | .array _ elements => by
      simp only [Expr.canonical, Expr.keyNames, elementsKeyNames_canonical elements]
  | .object _ properties => by
      simp only [Expr.canonical, Expr.keyNames, propertiesKeyNames_canonical properties]
  | .paren _ inner => by simp only [Expr.canonical, Expr.keyNames, inner.keyNames_canonical]
  | .arrow _ params body => by
      simp only [Expr.canonical, Expr.keyNames, patternsKeyNames_canonical params,
        Expr.keyNames_grouped, body.keyNames_canonical]
  | .unary _ _ argument => by
      simp only [Expr.canonical, Expr.keyNames, Expr.keyNames_grouped, argument.keyNames_canonical]
  | .update _ _ fixity argument => by
      cases fixity <;> simp only [Expr.canonical, Expr.keyNames, Expr.keyNames_grouped,
        argument.keyNames_canonical]
  | .binary _ op left right => by
      rw [Expr.canonical]
      split <;> simp only [Expr.keyNames, Expr.keyNames_grouped, left.keyNames_canonical,
        right.keyNames_canonical]
  | .logical _ _ left right => by
      simp only [Expr.canonical, Expr.keyNames, Expr.keyNames_grouped, left.keyNames_canonical,
        right.keyNames_canonical]
  | .conditional _ test consequent alternate => by
      simp only [Expr.canonical, Expr.keyNames, Expr.keyNames_grouped, test.keyNames_canonical,
        consequent.keyNames_canonical, alternate.keyNames_canonical]
  | .assign _ _ target value => by
      simp only [Expr.canonical, Expr.keyNames, Expr.keyNames_grouped, target.keyNames_canonical,
        value.keyNames_canonical]
  | .destructure _ _ pattern value => by
      simp only [Expr.canonical, Expr.keyNames, Expr.keyNames_grouped,
        pattern.keyNames_canonical, value.keyNames_canonical]
  | .sequence _ items => by
      simp only [Expr.canonical, Expr.keyNames, itemsKeyNames_canonical items]
  | .member _ owner key _ => by
      cases key with
      | name id =>
          simp only [Expr.canonical, Expr.keyNames, Expr.keyNames_grouped,
            owner.keyNames_canonical, MemberKey.keyNames]
      | computed key =>
          simp only [Expr.canonical, Expr.keyNames, Expr.keyNames_grouped,
            owner.keyNames_canonical, MemberKey.keyNames, key.keyNames_canonical]
  | .call _ callee arguments _ => by
      simp only [Expr.canonical, Expr.keyNames, Expr.keyNames_grouped, callee.keyNames_canonical,
        itemsKeyNames_canonical arguments]
  | .new _ callee arguments => by
      simp only [Expr.canonical, Expr.keyNames, Expr.keyNames_grouped, callee.keyNames_canonical,
        itemsKeyNames_canonical arguments]
  | .tagged _ tag _ _ holes => by
      simp only [Expr.canonical, Expr.keyNames, Expr.keyNames_grouped, tag.keyNames_canonical,
        holesKeyNames_canonical holes]
  | .spread _ argument => by
      simp only [Expr.canonical, Expr.keyNames, Expr.keyNames_grouped, argument.keyNames_canonical]

theorem holesKeyNames_canonical : ∀ holes : List Expr,
    itemsKeyNames (canonicalHoles holes) = itemsKeyNames holes
  | [] => rfl
  | hole :: holes => by
      simp only [canonicalHoles, itemsKeyNames, hole.keyNames_canonical,
        holesKeyNames_canonical holes]

theorem itemsKeyNames_canonical : ∀ items : List Expr,
    itemsKeyNames (canonicalItems items) = itemsKeyNames items
  | [] => rfl
  | item :: items => by
      simp only [canonicalItems, itemsKeyNames, Expr.keyNames_grouped, item.keyNames_canonical,
        itemsKeyNames_canonical items]

theorem elementsKeyNames_canonical : ∀ elements : List (Option Expr),
    elementsKeyNames (canonicalElements elements) = elementsKeyNames elements
  | [] => rfl
  | none :: elements => by
      simp only [canonicalElements, elementsKeyNames, elementsKeyNames_canonical elements]
  | some item :: elements => by
      simp only [canonicalElements, elementsKeyNames, Expr.keyNames_grouped,
        item.keyNames_canonical, elementsKeyNames_canonical elements]

theorem propertiesKeyNames_canonical : ∀ properties : List Property,
    propertiesKeyNames (canonicalProperties properties) = propertiesKeyNames properties
  | [] => rfl
  | .spread _ argument :: properties => by
      simp only [canonicalProperties, propertiesKeyNames, Expr.keyNames_grouped,
        argument.keyNames_canonical, propertiesKeyNames_canonical properties]
  | .field _ key value _ :: properties => by
      simp only [canonicalProperties, propertiesKeyNames, key.property?_canonical,
        key.keyNames_canonical, Expr.keyNames_grouped, value.keyNames_canonical,
        propertiesKeyNames_canonical properties]

theorem PropertyKey.keyNames_canonical : ∀ key : PropertyKey,
    key.canonical.keyNames = key.keyNames
  | .name _ | .string _ | .number _ => by
      simp only [PropertyKey.canonical, PropertyKey.keyNames]
  | .computed key => by
      simp only [PropertyKey.canonical, PropertyKey.keyNames, Expr.keyNames_grouped,
        key.keyNames_canonical]

theorem Pattern.keyNames_canonical : ∀ pattern : Pattern,
    pattern.canonical.keyNames = pattern.keyNames
  | .ident _ => by simp only [Pattern.canonical]
  | .array _ elements => by
      simp only [Pattern.canonical, Pattern.keyNames, patternElementsKeyNames_canonical elements]
  | .object _ properties => by
      simp only [Pattern.canonical, Pattern.keyNames,
        patternPropertiesKeyNames_canonical properties]
  | .rest _ argument => by
      simp only [Pattern.canonical, Pattern.keyNames, argument.keyNames_canonical]
  | .withDefault _ target value => by
      simp only [Pattern.canonical, Pattern.keyNames, target.keyNames_canonical,
        Expr.keyNames_grouped, value.keyNames_canonical]

theorem patternsKeyNames_canonical : ∀ patterns : List Pattern,
    patternsKeyNames (canonicalPatterns patterns) = patternsKeyNames patterns
  | [] => rfl
  | pattern :: patterns => by
      simp only [canonicalPatterns, patternsKeyNames, pattern.keyNames_canonical,
        patternsKeyNames_canonical patterns]

theorem patternElementsKeyNames_canonical : ∀ elements : List (Option Pattern),
    patternElementsKeyNames (canonicalPatternElements elements) = patternElementsKeyNames elements
  | [] => rfl
  | none :: elements => by
      simp only [canonicalPatternElements, patternElementsKeyNames,
        patternElementsKeyNames_canonical elements]
  | some pattern :: elements => by
      simp only [canonicalPatternElements, patternElementsKeyNames, pattern.keyNames_canonical,
        patternElementsKeyNames_canonical elements]

theorem patternPropertiesKeyNames_canonical : ∀ properties : List PatternProperty,
    patternPropertiesKeyNames (canonicalPatternProperties properties) =
      patternPropertiesKeyNames properties
  | [] => rfl
  | .rest _ argument :: properties => by
      simp only [canonicalPatternProperties, patternPropertiesKeyNames,
        argument.keyNames_canonical, patternPropertiesKeyNames_canonical properties]
  | .field _ key value _ :: properties => by
      simp only [canonicalPatternProperties, patternPropertiesKeyNames, key.property?_canonical,
        key.keyNames_canonical, value.keyNames_canonical,
        patternPropertiesKeyNames_canonical properties]

end

/-! ## Parsed trees -/

/-- If no key is an infinite number, a parsed tree is printed as a text that is parsed again,
and one after the other its keys stand for the same properties as before. What a key stands for
is the name that a literal and a pattern evaluate it to. -/
theorem keyNames_of_parse_print (source : String) (strict : Bool) (expr : Expr)
    (parsed : parse source strict = .ok expr) (finite : expr.Everywhere finiteKeys) :
    (∃ found, parse expr.print = .ok found ∧ found.keyNames = expr.keyNames) ∧
      ∀ (key : PropertyKey) (name : String), key.property? = some name →
        ∀ (context : Context) (path : Path) (bindings : Record),
          Eval.evalPropertyKey context path key = pure name ∧
            Eval.evalPatternKey context path bindings key = pure name := by
  refine ⟨?_, fun key name stands context path bindings =>
    ⟨Eval.evalPropertyKey_of_property? stands context path,
      Eval.evalPatternKey_of_property? stands context path bindings⟩⟩
  rcases parse_grammatical parsed with ⟨grammatical, operand⟩
  have writable := grammatical.writable finite
  rcases parse_print writable operand with ⟨found, again, same, -⟩
  refine ⟨found, again, ?_⟩
  calc found.keyNames
      = found.erase.keyNames := found.keyNames_erase.symm
    _ = expr.canonical.erase.keyNames := by rw [same]
    _ = expr.canonical.keyNames := expr.canonical.keyNames_erase
    _ = expr.keyNames := expr.keyNames_canonical

/-- A literal and a pattern with keys that are written anew. -/
def numericKeysText : String :=
  "(\x7b 0x1F: a, 'k': [b] \x7d) => (\x7b .50: a, 1e21: b \x7d)"

theorem keyNames_of_parse_print_sample : ∃ expr found, parse numericKeysText = .ok expr ∧
    parse expr.print = .ok found ∧ found.keyNames = expr.keyNames := by
  have holds : (parse numericKeysText).toOption.any
      (fun expr => decide (expr.Everywhere finiteKeys)) = true := by
    decide +kernel
  rcases exists_ok_of_any holds with ⟨expr, parsed, finite⟩
  rcases keyNames_of_parse_print _ _ _ parsed (of_decide_eq_true finite) with ⟨⟨found, rest⟩, -⟩
  exact ⟨expr, found, parsed, rest⟩

/-- A literal with a key that is larger than any finite number. -/
def infiniteKeyText : String := "(\x7b1e999: 1\x7d)"

/-- The key stands for a property like any other, but it is printed as a division. -/
theorem not_parse_print_infinite_key : ∃ expr, parse infiniteKeyText = .ok expr ∧
    expr.keyNames = [some "Infinity"] ∧ expr.print = "(\x7b 1 / 0: 1 \x7d)" ∧
      ¬ ∃ found, parse expr.print = .ok found := by
  have holds : (parse infiniteKeyText).toOption.any (fun expr =>
      decide (expr.keyNames = [some "Infinity"]) &&
        decide (expr.print = "(\x7b 1 / 0: 1 \x7d)") && !(parse expr.print).isOk) = true := by
    decide +kernel
  rcases exists_ok_of_any holds with ⟨expr, parsed, holds⟩
  simp only [Bool.and_eq_true, decide_eq_true_eq, Bool.not_eq_true'] at holds
  refine ⟨expr, parsed, holds.1.1, holds.1.2, ?_⟩
  rintro ⟨found, again⟩
  rw [again] at holds
  cases holds.2

end ExprScript
