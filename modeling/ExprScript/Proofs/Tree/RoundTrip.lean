import ExprScript.Proofs.Grammar.Expression
import ExprScript.Proofs.Number.Shortest
import ExprScript.Proofs.Tree.Words
import ExprScript.Proofs.Tree.Writable

/-! # Printing and parsing

A tree that was parsed is printed as a text that is parsed again. The new tree is the
canonical form of the old one: it has a node for every pair of parentheses that was
added, and a division for every infinite number. It is printed as the same text.
-/

namespace ExprScript

/-! ## Places are not printed -/

@[simp] theorem Expr.precedence_erase (expr : Expr) : expr.erase.precedence = expr.precedence := by
  cases expr with
  | update loc op fixity argument => cases fixity <;> simp only [erase, precedence]
  | _ => simp only [erase, precedence, NumberLiteral.erase]

@[simp] theorem Expr.isNumber_erase (expr : Expr) : expr.erase.isNumber = expr.isNumber := by
  cases expr <;> simp only [erase, isNumber]

@[simp] theorem Expr.callsBeforeNew_erase : ∀ expr : Expr,
    expr.erase.callsBeforeNew = expr.callsBeforeNew
  | .member _ owner _ _ => by simp only [erase, callsBeforeNew, owner.callsBeforeNew_erase]
  | .null _ | .boolean _ _ | .number _ | .string _ | .regExp _ _ _ | .template _ _ _ | .ident _
  | .this _ | .array _ _ | .object _ _ | .paren _ _ | .arrow _ _ _ | .unary _ _ _
  | .update _ _ _ _ | .binary _ _ _ _ | .logical _ _ _ _ | .conditional _ _ _ _
  | .assign _ _ _ _ | .destructure _ _ _ _ | .sequence _ _ | .call _ _ _ _ | .new _ _ _
  | .tagged _ _ _ _ _ | .spread _ _ => by simp only [erase, callsBeforeNew]

theorem printTemplate_erase (quasis : List Quasi) (holes : List String) :
    printTemplate (quasis.map Quasi.erase) holes = printTemplate quasis holes := by
  rw [printTemplate, List.map_map]
  rfl

theorem endsInHole_eraseElements (elements : List (Option Expr)) :
    endsInHole (eraseElements elements) = endsInHole elements := by
  induction elements with
  | nil => rfl
  | cons element elements induction =>
      cases element <;>
        simp only [eraseElements, endsInHole_cons, isEmpty_eraseElements, induction,
          Option.isNone_none, Option.isNone_some]

theorem isEmpty_erasePatternElements (elements : List (Option Pattern)) :
    (erasePatternElements elements).isEmpty = elements.isEmpty := by
  cases elements with
  | nil => rfl
  | cons element elements =>
      cases element <;> simp only [erasePatternElements, List.isEmpty_cons]

theorem endsInHole_erasePatternElements (elements : List (Option Pattern)) :
    endsInHole (erasePatternElements elements) = endsInHole elements := by
  induction elements with
  | nil => rfl
  | cons element elements induction =>
      cases element <;>
        simp only [erasePatternElements, endsInHole_cons, isEmpty_erasePatternElements, induction,
          Option.isNone_none, Option.isNone_some]

mutual

/-- Trees that differ only in places are printed alike. -/
theorem Expr.print_erase : ∀ expr : Expr, expr.erase.print = expr.print
  | .null _ | .boolean _ _ | .number _ | .string _ | .regExp _ _ _ | .ident _ | .this _ => by
      simp only [Expr.erase, Expr.print, NumberLiteral.erase, StringLiteral.erase, Ident.erase]
  | .template _ quasis holes => by
      simp only [Expr.erase, Expr.print, printTemplate_erase, printHoles_erase holes]
  | .array _ elements => by
      simp only [Expr.erase, Expr.print, printElements_erase elements, endsInHole_eraseElements]
  | .object _ properties => by
      simp only [Expr.erase, Expr.print, printProperties_erase properties]
  | .paren _ inner => by simp only [Expr.erase, Expr.print, inner.print_erase]
  | .arrow _ params body => by
      simp only [Expr.erase, Expr.print, printPatterns_erase params, Expr.precedence_erase,
        body.print_erase]
  | .unary _ _ argument => by
      simp only [Expr.erase, Expr.print, Expr.precedence_erase, argument.print_erase]
  | .update _ _ fixity argument => by
      cases fixity <;> simp only [Expr.erase, Expr.print, Expr.precedence_erase, argument.print_erase]
  | .binary _ _ left right => by
      simp only [Expr.erase, Expr.print, Expr.precedence_erase, left.print_erase, right.print_erase]
  | .logical _ _ left right => by
      simp only [Expr.erase, Expr.print, Expr.precedence_erase, Expr.conflictsWith_erase,
        left.print_erase, right.print_erase]
  | .conditional _ test consequent alternate => by
      simp only [Expr.erase, Expr.print, Expr.precedence_erase, test.print_erase,
        consequent.print_erase, alternate.print_erase]
  | .assign _ _ target value => by
      simp only [Expr.erase, Expr.print, Expr.precedence_erase, target.print_erase, value.print_erase]
  | .destructure _ _ pattern value => by
      simp only [Expr.erase, Expr.print, Expr.precedence_erase, pattern.print_erase, value.print_erase]
  | .sequence _ items => by simp only [Expr.erase, Expr.print, printItems_erase items]
  | .member _ owner key _ => by
      cases key with
      | name id =>
          simp only [Expr.erase, MemberKey.erase, Expr.print_member_name, Expr.isNumber_erase,
            Expr.precedence_erase, owner.print_erase, Ident.erase]
      | computed key =>
          simp only [Expr.erase, MemberKey.erase, Expr.print_member_computed, Expr.precedence_erase,
            owner.print_erase, key.print_erase]
  | .call _ callee arguments _ => by
      simp only [Expr.erase, Expr.print, Expr.precedence_erase, callee.print_erase,
        printItems_erase arguments]
  | .new _ callee arguments => by
      simp only [Expr.erase, Expr.print, Expr.precedence_erase, Expr.callsBeforeNew_erase,
        callee.print_erase, printItems_erase arguments]
  | .tagged _ tag _ quasis holes => by
      simp only [Expr.erase, Expr.print, Expr.precedence_erase, Expr.isOptionalChain_erase,
        tag.print_erase, printTemplate_erase, printHoles_erase holes]
  | .spread _ argument => by
      simp only [Expr.erase, Expr.print, Expr.precedence_erase, argument.print_erase]

theorem printHoles_erase : ∀ holes : List Expr, printHoles (eraseItems holes) = printHoles holes
  | [] => rfl
  | hole :: holes => by
      rw [eraseItems, printHoles, printHoles, hole.print_erase, printHoles_erase holes]

theorem printItems_erase : ∀ items : List Expr, printItems (eraseItems items) = printItems items
  | [] => rfl
  | item :: items => by
      rw [eraseItems, printItems, printItems, item.print_erase, Expr.precedence_erase,
        printItems_erase items]

theorem printElements_erase : ∀ elements : List (Option Expr),
    printElements (eraseElements elements) = printElements elements
  | [] => rfl
  | none :: elements => by
      rw [eraseElements, printElements, printElements, printElements_erase elements]
  | some item :: elements => by
      rw [eraseElements, printElements, printElements, item.print_erase, Expr.precedence_erase,
        printElements_erase elements]

theorem printProperties_erase : ∀ properties : List Property,
    printProperties (eraseProperties properties) = printProperties properties
  | [] => rfl
  | .spread _ argument :: properties => by
      simp only [eraseProperties, Property.erase, printProperties, argument.print_erase,
        Expr.precedence_erase, printProperties_erase properties]
  | .field _ key value _ :: properties => by
      simp only [eraseProperties, Property.erase, printProperties, key.print_erase,
        value.print_erase, Expr.precedence_erase, printProperties_erase properties]

theorem PropertyKey.print_erase : ∀ key : PropertyKey, key.erase.print = key.print
  | .name _ | .string _ | .number _ => by
      simp only [PropertyKey.erase, PropertyKey.print, Ident.erase, StringLiteral.erase,
        NumberLiteral.erase]
  | .computed key => by
      simp only [PropertyKey.erase, PropertyKey.print, key.print_erase, Expr.precedence_erase]

theorem Pattern.print_erase : ∀ pattern : Pattern, pattern.erase.print = pattern.print
  | .ident _ => by simp only [Pattern.erase, Pattern.print, Ident.erase]
  | .array _ elements => by
      simp only [Pattern.erase, Pattern.print, printPatternElements_erase elements,
        endsInHole_erasePatternElements]
  | .object _ properties => by
      simp only [Pattern.erase, Pattern.print, printPatternProperties_erase properties]
  | .rest _ argument => by simp only [Pattern.erase, Pattern.print, argument.print_erase]
  | .withDefault _ target value => by
      simp only [Pattern.erase, Pattern.print, target.print_erase, value.print_erase,
        Expr.precedence_erase]

theorem printPatterns_erase : ∀ patterns : List Pattern,
    printPatterns (erasePatterns patterns) = printPatterns patterns
  | [] => rfl
  | pattern :: patterns => by
      rw [erasePatterns, printPatterns, printPatterns, pattern.print_erase,
        printPatterns_erase patterns]

theorem printPatternElements_erase : ∀ elements : List (Option Pattern),
    printPatternElements (erasePatternElements elements) = printPatternElements elements
  | [] => rfl
  | none :: elements => by
      rw [erasePatternElements, printPatternElements, printPatternElements,
        printPatternElements_erase elements]
  | some pattern :: elements => by
      rw [erasePatternElements, printPatternElements, printPatternElements, pattern.print_erase,
        printPatternElements_erase elements]

theorem printPatternProperties_erase : ∀ properties : List PatternProperty,
    printPatternProperties (erasePatternProperties properties) = printPatternProperties properties
  | [] => rfl
  | .rest _ argument :: properties => by
      simp only [erasePatternProperties, PatternProperty.erase, printPatternProperties,
        argument.print_erase, printPatternProperties_erase properties]
  | .field _ key value _ :: properties => by
      simp only [erasePatternProperties, PatternProperty.erase, printPatternProperties,
        key.print_erase, value.print_erase, printPatternProperties_erase properties]

end

theorem Expr.print_of_erase {first second : Expr} (same : first.erase = second.erase) :
    first.print = second.print := by
  rw [← first.print_erase, same, second.print_erase]

/-! ## The text of a writable tree -/

theorem plainNumbers_of_writable {expr : Expr} (holds : expr.Everywhere writable) :
    expr.Everywhere plainNumbers := by
  refine Expr.everywhere_mono ?_ (fun _ _ => trivial) holds
  rintro _ ⟨_, words⟩ literal rfl
  exact words.plain

/-- The text of a writable tree is parsed to the canonical form of the tree, which is
printed as the same text. -/
theorem parse_print {expr : Expr} (holds : expr.Everywhere writable)
    (operand : expr.Operand Precedence.sequence) :
    ∃ found, parse expr.print = .ok found ∧ found.erase = expr.canonical.erase ∧
      found.print = expr.print := by
  have same := expr.print_canonical (plainNumbers_of_writable holds)
  have lexes := (Expr.printed (expr.legible_canonical holds)).item [] [] [] nofun .nil
  rw [List.append_nil, List.append_nil, same] at lexes
  rcases parse_of_lexes lexes (expr.legible_canonical holds) (operand.settles_canonical holds) with
    ⟨found, parsed, equal⟩
  exact ⟨found, parsed, equal, (Expr.print_of_erase equal).trans same⟩

/-! ## Conditions that are decided -/

section

variable {condition : Condition} [DecidablePred condition.expr] [DecidablePred condition.pattern]

def decideWith {node inside : Prop} [Decidable node] (decided : Decidable inside) :
    Decidable (node ∧ inside) :=
  instDecidableAnd

def decideBoth {first second : Prop} (decided : Decidable first) (decided' : Decidable second) :
    Decidable (first ∧ second) :=
  instDecidableAnd

mutual

def Expr.decideInside : ∀ expr : Expr, Decidable (expr.Inside condition)
  | .template _ _ holes => decideItems holes
  | .array _ elements => decideElements elements
  | .object _ properties => decideProperties properties
  | .paren _ inner => decideWith inner.decideInside
  | .arrow _ params body => decideBoth (decidePatterns params) (decideWith body.decideInside)
  | .unary _ _ argument => decideWith argument.decideInside
  | .update _ _ _ argument => decideWith argument.decideInside
  | .binary _ _ left right =>
    decideBoth (decideWith left.decideInside) (decideWith right.decideInside)
  | .logical _ _ left right =>
    decideBoth (decideWith left.decideInside) (decideWith right.decideInside)
  | .conditional _ test consequent alternate =>
    decideBoth (decideWith test.decideInside)
      (decideBoth (decideWith consequent.decideInside) (decideWith alternate.decideInside))
  | .assign _ _ target value =>
    decideBoth (decideWith target.decideInside) (decideWith value.decideInside)
  | .destructure _ _ pattern value =>
    decideBoth (decideWith pattern.decideInside) (decideWith value.decideInside)
  | .sequence _ items => decideItems items
  | .member _ owner key _ => decideBoth (decideWith owner.decideInside) key.decideInside
  | .call _ callee arguments _ => decideBoth (decideWith callee.decideInside) (decideItems arguments)
  | .new _ callee arguments => decideBoth (decideWith callee.decideInside) (decideItems arguments)
  | .tagged _ tag _ _ holes => decideBoth (decideWith tag.decideInside) (decideItems holes)
  | .spread _ argument => decideWith argument.decideInside
  | .null _ | .boolean _ _ | .number _ | .string _ | .regExp _ _ _ | .ident _ | .this _ =>
    .isTrue trivial

def decideItems : ∀ items : List Expr, Decidable (itemsInside condition items)
  | [] => .isTrue trivial
  | item :: items => decideBoth (decideWith item.decideInside) (decideItems items)

def decideElements : ∀ elements : List (Option Expr), Decidable (elementsInside condition elements)
  | [] => .isTrue trivial
  | none :: elements => decideElements elements
  | some item :: elements => decideBoth (decideWith item.decideInside) (decideElements elements)

def Property.decideInside : ∀ property : Property, Decidable (property.Inside condition)
  | .field _ key value _ => decideBoth key.decideInside (decideWith value.decideInside)
  | .spread _ argument => decideWith argument.decideInside

def decideProperties : ∀ properties : List Property,
    Decidable (propertiesInside condition properties)
  | [] => .isTrue trivial
  | property :: properties => decideBoth property.decideInside (decideProperties properties)

def PropertyKey.decideInside : ∀ key : PropertyKey, Decidable (key.Inside condition)
  | .computed key => decideWith key.decideInside
  | .name _ | .string _ | .number _ => .isTrue trivial

def MemberKey.decideInside : ∀ key : MemberKey, Decidable (key.Inside condition)
  | .computed key => decideWith key.decideInside
  | .name _ => .isTrue trivial

def Pattern.decideInside : ∀ pattern : Pattern, Decidable (pattern.Inside condition)
  | .ident _ => .isTrue trivial
  | .array _ elements => decidePatternElements elements
  | .object _ properties => decidePatternProperties properties
  | .rest _ argument => decideWith argument.decideInside
  | .withDefault _ target value =>
    decideBoth (decideWith target.decideInside) (decideWith value.decideInside)

def decidePatterns : ∀ patterns : List Pattern, Decidable (patternsInside condition patterns)
  | [] => .isTrue trivial
  | pattern :: patterns => decideBoth (decideWith pattern.decideInside) (decidePatterns patterns)

def decidePatternElements : ∀ elements : List (Option Pattern),
    Decidable (patternElementsInside condition elements)
  | [] => .isTrue trivial
  | none :: elements => decidePatternElements elements
  | some pattern :: elements =>
    decideBoth (decideWith pattern.decideInside) (decidePatternElements elements)

def PatternProperty.decideInside : ∀ property : PatternProperty,
    Decidable (property.Inside condition)
  | .field _ key value _ => decideBoth key.decideInside (decideWith value.decideInside)
  | .rest _ argument => decideWith argument.decideInside

def decidePatternProperties : ∀ properties : List PatternProperty,
    Decidable (patternPropertiesInside condition properties)
  | [] => .isTrue trivial
  | property :: properties => decideBoth property.decideInside (decidePatternProperties properties)

end

instance (expr : Expr) : Decidable (expr.Everywhere condition) := decideWith expr.decideInside

end

/-! ## The text of a parsed tree -/

def PropertyKey.numbers : PropertyKey → List Float
  | .number literal => [literal.value]
  | .name _ | .string _ | .computed _ => []

def Property.keyNumbers : Property → List Float
  | .field _ key _ _ => key.numbers
  | .spread _ _ => []

def PatternProperty.keyNumbers : PatternProperty → List Float
  | .field _ key _ _ => key.numbers
  | .rest _ _ => []

def Expr.keyNumbers : Expr → List Float
  | .object _ properties => properties.flatMap Property.keyNumbers
  | _ => []

def Pattern.keyNumbers : Pattern → List Float
  | .object _ properties => properties.flatMap PatternProperty.keyNumbers
  | _ => []

/-- No key is an infinite number. -/
def finiteKeys : Condition where
  expr expr := ∀ number ∈ expr.keyNumbers, number.isFinite = true
  pattern pattern := ∀ number ∈ pattern.keyNumbers, number.isFinite = true

instance : DecidablePred finiteKeys.expr := fun expr =>
  inferInstanceAs (Decidable (∀ number ∈ expr.keyNumbers, number.isFinite = true))

instance : DecidablePred finiteKeys.pattern := fun pattern =>
  inferInstanceAs (Decidable (∀ number ∈ pattern.keyNumbers, number.isFinite = true))

theorem NumberLiteral.Read.writable {literal : NumberLiteral} (read : literal.Read) :
    literal.Writable :=
  ⟨read.plain, Number.readsBack read.plain⟩

theorem PropertyKey.Lexical.writable {key : PropertyKey} (lexical : key.Lexical)
    (finite : ∀ number ∈ key.numbers, number.isFinite = true) : key.Writable := by
  cases key with
  | name id => exact Ident.ReadAsKey.nameText lexical
  | number literal =>
      have member : literal.value ∈ [literal.value] := List.mem_singleton.mpr rfl
      exact ⟨NumberLiteral.Read.writable lexical, Number.not_isInf (finite _ member)⟩
  | string literal => trivial
  | computed key => trivial

theorem Expr.words_of_lexical {expr : Expr} (lexical : expr.Lexical)
    (finite : finiteKeys.expr expr) : expr.Words := by
  cases expr with
  | number literal => exact NumberLiteral.Read.writable lexical
  | regExp loc pattern flags => exact RegExpRead.regExpText lexical
  | template loc quasis holes => exact fun quasi member => (lexical quasi member).templateText
  | tagged loc tag templateLoc quasis holes =>
      exact fun quasi member => (lexical quasi member).templateText
  | ident id => exact Ident.Read.nameText lexical
  | object loc properties =>
      intro property member
      have lexical := lexical property member
      have finite := List.forall_mem_flatMap.mp finite property member
      cases property with
      | field loc key value shorthand => exact PropertyKey.Lexical.writable lexical finite
      | spread loc argument => trivial
  | member loc owner key optional =>
      cases key with
      | name id => exact Ident.ReadAsKey.nameText lexical
      | computed key => trivial
  | _ => trivial

theorem Pattern.words_of_lexical {pattern : Pattern} (lexical : pattern.Lexical)
    (finite : finiteKeys.pattern pattern) : pattern.Words := by
  cases pattern with
  | ident id => exact Ident.Read.nameText lexical
  | object loc properties =>
      intro property member
      have lexical := lexical property member
      have finite := List.forall_mem_flatMap.mp finite property member
      cases property with
      | field loc key value shorthand => exact PropertyKey.Lexical.writable lexical finite
      | rest loc argument => trivial
  | _ => trivial

theorem Expr.Grammatical.writable {expr : Expr} (grammatical : expr.Grammatical)
    (finite : expr.Everywhere finiteKeys) : expr.Everywhere writable := by
  refine Expr.everywhere_join ⟨?_, ?_⟩ grammatical finite
  · rintro expr ⟨shape, lexical⟩ finite
    exact ⟨shape, Expr.words_of_lexical lexical finite⟩
  · rintro pattern ⟨shape, lexical⟩ finite
    exact ⟨shape, Pattern.words_of_lexical lexical finite⟩

/-- A parsed tree is printed as a text that is parsed again. The new tree has a node for
every pair of parentheses that was added and a division for every infinite number, and
is otherwise the same; it is printed as the same text. -/
theorem parse_print_of_parse (source : String) (strict : Bool) (expr : Expr)
    (parsed : parse source strict = .ok expr) (finite : expr.Everywhere finiteKeys) :
    ∃ found, parse expr.print = .ok found ∧ found.print = expr.print ∧
      found.erase = expr.canonical.erase := by
  rcases parse_grammatical parsed with ⟨grammatical, operand⟩
  rcases parse_print (grammatical.writable finite) operand with ⟨found, again, equal, same⟩
  exact ⟨found, again, same, equal⟩

/-- A text whose tree is printed with parentheses that it did not have. -/
def sampleText : String :=
  "x => (f`a$\x7b0x1F\x7db`, new (g().h)(...[, 1e999], \x7b 7: 2.50, 'k': 1e999 ** -2 \x7d))"

theorem parse_print_of_parse_sample : ∃ expr found, parse sampleText = .ok expr ∧
    parse expr.print = .ok found ∧ found.print = expr.print ∧
      found.erase = expr.canonical.erase := by
  have holds : (parse sampleText).toOption.any
      (fun expr => decide (expr.Everywhere finiteKeys)) = true := by
    decide +kernel
  rcases exists_ok_of_any holds with ⟨expr, parsed, finite⟩
  rcases parse_print_of_parse _ _ _ parsed (of_decide_eq_true finite) with ⟨found, rest⟩
  exact ⟨expr, found, parsed, rest⟩

end ExprScript
