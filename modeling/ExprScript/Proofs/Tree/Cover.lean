import ExprScript.Proofs.Tree.Legible

/-! # Patterns as expressions

A pattern is read as an expression first. `Pattern.cover` is that expression: it is
printed like the pattern, and it is rebuilt as the pattern.
-/

namespace ExprScript

open Reader Scanner

mutual

def Pattern.cover : Pattern → Expr
  | .ident id => .ident id
  | .array loc elements => .array loc (coverElements elements)
  | .object loc properties => .object loc (coverProperties properties)
  | .rest loc argument => .spread loc argument.cover
  | .withDefault loc target value =>
    match target with
    | .ident id => .assign loc .plain (.ident id) value
    | target => .destructure loc .plain target value

def coverElements : List (Option Pattern) → List (Option Expr)
  | [] => []
  | none :: elements => none :: coverElements elements
  | some pattern :: elements => some pattern.cover :: coverElements elements

def coverProperties : List PatternProperty → List Property
  | [] => []
  | .field loc key value shorthand :: properties =>
    .field loc key value.cover shorthand :: coverProperties properties
  | .rest loc argument :: properties => .spread loc argument.cover :: coverProperties properties

end

theorem Precedence.assignment_le_primary : assignment ≤ primary := by decide

theorem Precedence.call_le_primary : call ≤ primary := by decide

namespace Pattern

theorem cover_withDefault_ident (loc : Span) (id : Ident) (value : Expr) :
    (Pattern.withDefault loc (.ident id) value).cover = .assign loc .plain (.ident id) value := by
  rw [cover]

theorem cover_withDefault_composite (loc : Span) {target : Pattern} (value : Expr)
    (composite : target.isComposite = true) :
    (Pattern.withDefault loc target value).cover = .destructure loc .plain target value := by
  cases target with
  | array | object => rw [cover]; nofun
  | _ => cases composite

theorem ident_or_composite {target : Pattern} (isTarget : target.isTarget = true) :
    (∃ id, target = .ident id) ∨ target.isComposite = true := by
  cases target with
  | ident id => exact .inl ⟨id, rfl⟩
  | array | object => exact .inr rfl
  | _ => cases isTarget

/-! ## Tokens and text -/

mutual

theorem lexemes_cover : ∀ pattern : Pattern, pattern.cover.lexemes = pattern.lexemes
  | .ident _ => by simp only [cover, Expr.lexemes, lexemes]
  | .array _ elements => by
      simp only [cover, Expr.lexemes, lexemes, lexemes_coverElements elements]
  | .object _ properties => by
      simp only [cover, Expr.lexemes, lexemes, lexemes_coverProperties properties]
  | .rest _ argument => by simp only [cover, Expr.lexemes, lexemes, lexemes_cover argument]
  | .withDefault _ target _ => by
      cases target <;> simp only [cover, Expr.lexemes, lexemes, AssignOp.mark]

theorem lexemes_coverElements : ∀ elements : List (Option Pattern),
    elementsLexemes (coverElements elements) = patternElementsLexemes elements
  | [] => rfl
  | none :: elements => by
      simp only [coverElements, elementsLexemes, patternElementsLexemes,
        lexemes_coverElements elements]
  | some pattern :: elements => by
      simp only [coverElements, elementsLexemes, patternElementsLexemes, lexemes_cover pattern,
        lexemes_coverElements elements]

theorem lexemes_coverProperties : ∀ properties : List PatternProperty,
    propertiesLexemes (coverProperties properties) = patternPropertiesLexemes properties
  | [] => rfl
  | .field _ _ value _ :: properties => by
      simp only [coverProperties, propertiesLexemes, patternPropertiesLexemes, Property.lexemes,
        PatternProperty.lexemes, lexemes_cover value, lexemes_coverProperties properties]
  | .rest _ argument :: properties => by
      simp only [coverProperties, propertiesLexemes, patternPropertiesLexemes, Property.lexemes,
        PatternProperty.lexemes, lexemes_cover argument, lexemes_coverProperties properties]

end

theorem precedence_cover (pattern : Pattern) :
    Precedence.assignment ≤ pattern.cover.precedence := by
  cases pattern with
  | withDefault loc target value => cases target <;> simp [cover, Expr.precedence]
  | rest => simp [cover, Expr.precedence]
  | _ =>
      rw [cover]
      exact Precedence.assignment_le_primary

theorem isSpread_cover {pattern : Pattern} (notRest : pattern.kind ≠ .restElement) :
    pattern.cover.isSpread = false := by
  cases pattern with
  | rest => exact absurd rfl notRest
  | withDefault loc target value => cases target <;> simp [cover, Expr.isSpread]
  | _ => simp [cover, Expr.isSpread]

theorem isEmpty_coverElements (elements : List (Option Pattern)) :
    (coverElements elements).isEmpty = elements.isEmpty := by
  cases elements with
  | nil => rfl
  | cons element elements => cases element <;> simp only [coverElements, List.isEmpty_cons]

theorem endsInHole_coverElements : ∀ elements : List (Option Pattern),
    endsInHole (coverElements elements) = endsInHole elements
  | [] => rfl
  | none :: elements => by
      rw [coverElements, endsInHole_cons, endsInHole_cons, isEmpty_coverElements,
        endsInHole_coverElements elements]
      rfl
  | some pattern :: elements => by
      rw [coverElements, endsInHole_cons, endsInHole_cons, isEmpty_coverElements,
        endsInHole_coverElements elements]
      rfl

end Pattern

theorem Expr.group_tight {level : Nat} {expr : Expr} (tight : level ≤ expr.precedence)
    (text : String) : group (expr.precedence < level) text = text := by
  rw [decide_eq_false (Nat.not_lt.mpr tight), group_false]

namespace Pattern

mutual

theorem print_cover : ∀ pattern : Pattern, pattern.Everywhere legible →
    pattern.cover.print = pattern.print
  | .ident _, _ => by simp only [cover, Expr.print, print]
  | .array _ elements, ⟨_, inside⟩ => by
      simp only [cover, Expr.print, print, print_coverElements elements inside,
        endsInHole_coverElements]
  | .object _ properties, ⟨_, inside⟩ => by
      simp only [cover, Expr.print, print, print_coverProperties properties inside]
  | .rest _ argument, ⟨_, inside⟩ => by
      simp only [cover, Expr.print, print, Expr.group_tight (precedence_cover argument),
        print_cover argument inside]
  | .withDefault _ target _, ⟨_, inside, _⟩ => by
      cases target with
      | ident id =>
          have tight : Precedence.call ≤ (Expr.ident id).precedence := Precedence.call_le_primary
          simp only [cover, Expr.print, print, Expr.group_tight tight, AssignOp.spelling,
            String.append_assoc]
          rfl
      | _ =>
          simp only [cover, Expr.print, print, AssignOp.spelling, String.append_assoc]
          rfl

theorem print_coverElements : ∀ elements : List (Option Pattern),
    patternElementsInside legible elements →
      printElements (coverElements elements) = printPatternElements elements
  | [], _ => rfl
  | none :: elements, inside => by
      simp only [coverElements, printElements, printPatternElements,
        print_coverElements elements inside]
  | some pattern :: elements, ⟨inside, inside'⟩ => by
      simp only [coverElements, printElements, printPatternElements,
        Expr.group_tight (precedence_cover pattern), print_cover pattern inside,
        print_coverElements elements inside']

theorem print_coverProperties : ∀ properties : List PatternProperty,
    patternPropertiesInside legible properties →
      printProperties (coverProperties properties) = printPatternProperties properties
  | [], _ => rfl
  | .field _ _ value _ :: properties, ⟨⟨_, inside⟩, inside'⟩ => by
      simp only [coverProperties, printProperties, printPatternProperties,
        Expr.group_tight (precedence_cover value), print_cover value inside,
        print_coverProperties properties inside']
  | .rest _ argument :: properties, ⟨inside, inside'⟩ => by
      simp only [coverProperties, printProperties, printPatternProperties,
        Expr.group_tight (precedence_cover argument), print_cover argument inside,
        print_coverProperties properties inside']

end

/-! ## The expression is legible -/

theorem mem_dropLast_of_mem {α : Type} {item first : α} {rest : List α}
    (member : item ∈ rest.dropLast) : item ∈ (first :: rest).dropLast := by
  cases rest with
  | nil => cases member
  | cons second rest => exact List.mem_cons_of_mem _ member

theorem legible_field {loc : Span} {key : PropertyKey} {value : Pattern} {shorthand : Bool}
    (legible : PatternProperty.Legible (.field loc key value shorthand)) :
    Property.Legible (.field loc key value.cover shorthand) := by
  rcases legible with ⟨keyLegible, notRest, short⟩
  refine ⟨keyLegible, ⟨isSpread_cover notRest, precedence_cover value⟩, fun isShort => ?_⟩
  rcases short isShort with ⟨id, named, rfl | ⟨place, fallback, rfl⟩⟩
  · exact ⟨id, named, .inl (by rw [cover])⟩
  · exact ⟨id, named, .inr ⟨place, fallback, cover_withDefault_ident place id fallback⟩⟩

theorem mem_coverElements {item : Expr} {elements : List (Option Pattern)}
    (member : some item ∈ coverElements elements) :
    ∃ pattern, some pattern ∈ elements ∧ item = pattern.cover := by
  induction elements with
  | nil => cases member
  | cons element elements induction =>
      cases element with
      | none =>
          rw [coverElements] at member
          rcases induction (by simpa using member) with ⟨pattern, within, equal⟩
          exact ⟨pattern, List.mem_cons_of_mem _ within, equal⟩
      | some pattern =>
          rw [coverElements] at member
          rcases List.mem_cons.mp member with equal | member
          · exact ⟨pattern, List.mem_cons_self .., Option.some.inj equal⟩
          · rcases induction member with ⟨pattern, within, equal⟩
            exact ⟨pattern, List.mem_cons_of_mem _ within, equal⟩

theorem legible_coverProperties {properties : List PatternProperty}
    (legible : ∀ property ∈ properties, property.Legible) :
    ∀ property ∈ coverProperties properties, property.Legible := by
  induction properties with
  | nil => nofun
  | cons first properties induction =>
      have whole := legible first (List.mem_cons_self ..)
      have later := induction fun property member =>
        legible property (List.mem_cons_of_mem _ member)
      cases first with
      | field loc key value shorthand =>
          rw [coverProperties]
          exact List.forall_mem_cons.mpr ⟨legible_field whole, later⟩
      | rest loc argument =>
          rcases whole with ⟨id, rfl⟩
          rw [coverProperties]
          exact List.forall_mem_cons.mpr
            ⟨⟨isSpread_cover nofun, precedence_cover (.ident id)⟩, later⟩

mutual

theorem legible_cover : ∀ pattern : Pattern, pattern.Everywhere legible →
    pattern.cover.Everywhere legible
  | .ident _, ⟨holds, _⟩ => by
      rw [cover]
      exact ⟨holds, trivial⟩
  | .array _ elements, ⟨_, inside⟩ => by
      rw [cover]
      refine ⟨fun item member => ?_, legible_coverElements elements inside⟩
      rcases mem_coverElements member with ⟨pattern, -, rfl⟩
      exact precedence_cover pattern
  | .object _ properties, ⟨holds, inside⟩ => by
      rw [cover]
      exact ⟨legible_coverProperties holds.1, legible_insideProperties properties inside⟩
  | .rest _ argument, ⟨holds, inside⟩ => by
      rw [cover]
      have notRest : argument.kind ≠ .restElement := by
        cases argument with
        | rest => cases holds
        | _ => nofun
      exact ⟨⟨isSpread_cover notRest, precedence_cover argument⟩, legible_cover argument inside⟩
  | .withDefault loc target value, ⟨⟨isTarget, settles⟩, inside, inside'⟩ => by
      rcases ident_or_composite isTarget with ⟨id, rfl⟩ | composite
      · rw [cover_withDefault_ident]
        refine ⟨⟨⟨rfl, ⟨⟨rfl, Precedence.call_le_primary⟩, by rw [Expr.hasInitializer] <;> nofun⟩⟩, settles⟩,
          ⟨inside.1, trivial⟩, inside'⟩
      · rw [cover_withDefault_composite loc value composite]
        exact ⟨⟨rfl, composite, settles⟩, inside, inside'⟩

theorem legible_coverElements : ∀ elements : List (Option Pattern),
    patternElementsInside legible elements → elementsInside legible (coverElements elements)
  | [], _ => trivial
  | none :: elements, inside => by
      rw [coverElements]
      exact legible_coverElements elements inside
  | some pattern :: elements, ⟨inside, inside'⟩ => by
      rw [coverElements]
      exact ⟨legible_cover pattern inside, legible_coverElements elements inside'⟩

theorem legible_insideProperties : ∀ properties : List PatternProperty,
    patternPropertiesInside legible properties →
      propertiesInside legible (coverProperties properties)
  | [], _ => trivial
  | .field _ _ value _ :: properties, ⟨⟨keyInside, inside⟩, inside'⟩ => by
      rw [coverProperties]
      exact ⟨⟨keyInside, legible_cover value inside⟩, legible_insideProperties properties inside'⟩
  | .rest _ argument :: properties, ⟨inside, inside'⟩ => by
      rw [coverProperties]
      exact ⟨legible_cover argument inside, legible_insideProperties properties inside'⟩

end

/-! ## The expression is rebuilt as the pattern -/

theorem kind_cover {pattern : Pattern} (notRest : pattern.kind ≠ .restElement) :
    pattern.cover.kind ≠ .spreadElement := by
  have notSpread := isSpread_cover notRest
  intro isSpread
  cases equal : pattern.cover with
  | spread => rw [equal] at notSpread; cases notSpread
  | _ => rw [equal] at isSpread; cases isSpread

theorem isAssignment_cover {pattern : Pattern} (isTarget : pattern.isTarget = true) :
    pattern.cover.isAssignment = false := by
  cases pattern with
  | rest | withDefault => cases isTarget
  | _ => simp [cover, Expr.isAssignment]

theorem notRest_of_isTarget {pattern : Pattern} (isTarget : pattern.isTarget = true) :
    pattern.kind ≠ .restElement := by
  cases pattern with
  | rest => cases isTarget
  | _ => nofun

mutual

theorem reinterpret_cover (use : PatternUse) : ∀ pattern : Pattern, pattern.Everywhere legible →
    pattern.kind ≠ .restElement → reinterpret use pattern.cover = .ok pattern
  | .ident _, _, _ => by rw [cover, reinterpret]
  | .array _ elements, ⟨holds, inside⟩, _ => by
      rw [cover, reinterpret, reinterpret_coverElements use elements inside holds]
      rfl
  | .object _ properties, ⟨⟨shapes, holds⟩, inside⟩, _ => by
      rw [cover, reinterpret, reinterpret_coverProperties use properties inside shapes holds]
      rfl
  | .rest _ _, _, notRest => absurd rfl notRest
  | .withDefault loc target value, ⟨⟨isTarget, _⟩, _, _⟩, _ => by
      rcases ident_or_composite isTarget with ⟨id, rfl⟩ | composite
      · rw [cover_withDefault_ident, reinterpret, reinterpret]
        rfl
      · rw [cover_withDefault_composite loc value composite, reinterpret]

theorem reinterpret_coverElements (use : PatternUse) : ∀ elements : List (Option Pattern),
    patternElementsInside legible elements →
      (∀ pattern, some pattern ∈ elements.dropLast → pattern.kind ≠ .restElement) →
      reinterpretElements use (coverElements elements) = .ok elements
  | [], _, _ => by rw [coverElements, reinterpretElements]
  | none :: elements, inside, notRest => by
      have later := reinterpret_coverElements use elements inside fun pattern member =>
        notRest pattern (mem_dropLast_of_mem member)
      rw [coverElements, reinterpretElements, later]
      rfl
  | some pattern :: elements, ⟨inside, inside'⟩, notRest => by
      by_cases isRest : pattern.kind = .restElement
      · cases pattern with
        | rest loc argument =>
            have isLast : elements = [] := by
              cases elements with
              | nil => rfl
              | cons second elements => exact absurd rfl (notRest _ (List.mem_cons_self ..))
            rcases inside with ⟨isTarget, inside⟩
            have inner := reinterpret_cover use argument inside (notRest_of_isTarget isTarget)
            subst isLast
            simp only [coverElements, cover, reinterpretElements, isAssignment_cover isTarget,
              inner]
            rfl
        | _ => cases isRest
      · have later := reinterpret_coverElements use elements inside' fun pattern member =>
          notRest pattern (mem_dropLast_of_mem member)
        rw [coverElements, reinterpretElements_some _ (kind_cover isRest),
          reinterpret_cover use pattern inside isRest, later]
        rfl

theorem reinterpret_coverProperties (use : PatternUse) : ∀ properties : List PatternProperty,
    patternPropertiesInside legible properties → (∀ property ∈ properties, property.Legible) →
      (∀ loc argument, PatternProperty.rest loc argument ∉ properties.dropLast) →
      reinterpretProperties use (coverProperties properties) = .ok properties
  | [], _, _, _ => by rw [coverProperties, reinterpretProperties]
  | .field _ _ value _ :: properties, ⟨⟨_, inside⟩, inside'⟩, holds, notRest => by
      have later := reinterpret_coverProperties use properties inside'
        (fun property member => holds property (List.mem_cons_of_mem _ member))
        (fun loc argument member => notRest loc argument (mem_dropLast_of_mem member))
      have first := holds _ (List.mem_cons_self ..)
      rw [coverProperties, reinterpretProperties,
        reinterpret_cover use value inside first.2.1, later]
      rfl
  | .rest loc argument :: properties, _, holds, notRest => by
      have isLast : properties = [] := by
        cases properties with
        | nil => rfl
        | cons second properties => exact absurd (List.mem_cons_self ..) (notRest loc argument)
      rcases holds _ (List.mem_cons_self ..) with ⟨id, rfl⟩
      subst isLast
      simp only [coverProperties, cover, reinterpretProperties]
      rfl

end

theorem reinterpret_coverItems : ∀ params : List Pattern, patternsInside legible params →
    (∀ param ∈ params.dropLast, param.kind ≠ .restElement) →
      reinterpretItems (params.map cover) = .ok params
  | [], _, _ => by rw [List.map_nil, reinterpretItems]
  | param :: params, ⟨inside, inside'⟩, notRest => by
      by_cases isRest : param.kind = .restElement
      · cases param with
        | rest loc argument =>
            have isLast : params = [] := by
              cases params with
              | nil => rfl
              | cons second params => exact absurd rfl (notRest _ (List.mem_cons_self ..))
            rcases inside with ⟨isTarget, inside⟩
            have inner := reinterpret_cover .parameter argument inside
              (notRest_of_isTarget isTarget)
            subst isLast
            simp only [List.map_cons, List.map_nil, cover, reinterpretItems,
              isAssignment_cover isTarget, inner]
            rfl
        | _ => cases isRest
      · have later := reinterpret_coverItems params inside' fun pattern member =>
          notRest pattern (mem_dropLast_of_mem member)
        rw [List.map_cons, reinterpretItems_cons _ (kind_cover isRest),
          reinterpret_cover .parameter param inside isRest, later]
        rfl

/-! ## Whatever the places, the same pattern is rebuilt -/

theorem ok_of_toOption {ε α : Type} {result : Except ε α} {value : α}
    (found : result.toOption = some value) : result = .ok value := by
  cases result with
  | error error => cases found
  | ok value' => cases found; rfl

theorem reinterpret_of_erase (use : PatternUse) {expr : Expr} {pattern : Pattern}
    (same : expr.erase = pattern.cover.erase) (holds : pattern.Everywhere legible)
    (notRest : pattern.kind ≠ .restElement) :
    ∃ found, reinterpret use expr = .ok found ∧ found.erase = pattern.erase := by
  have rebuilt := reinterpret_erase use expr
  rw [same, reinterpret_erase, reinterpret_cover use pattern holds notRest] at rebuilt
  rcases Option.map_eq_some_iff.mp rebuilt.symm with ⟨found, run, equal⟩
  exact ⟨found, ok_of_toOption run, equal⟩

theorem reinterpretParameters_of_erase {items : List Expr} {params : List Pattern}
    (same : eraseItems items = eraseItems (params.map cover))
    (holds : patternsInside legible params) (shape : ParametersLegible params) :
    ∃ found, reinterpretParameters items = .ok found ∧
      erasePatterns found = erasePatterns params := by
  have rebuilt := reinterpretItems_erase items
  rw [same, reinterpretItems_erase, reinterpret_coverItems params holds shape.rest] at rebuilt
  rcases Option.map_eq_some_iff.mp rebuilt.symm with ⟨found, run, equal⟩
  have names : (found.flatMap boundNames).map Ident.erase =
      (params.flatMap boundNames).map Ident.erase := by
    have flat := congrArg (List.flatMap boundNames) equal
    simp only [erasePatterns_eq_map, List.flatMap_map, boundNames_erase] at flat
    rwa [List.map_flatMap, List.map_flatMap]
  have distinct : firstRepeated [] (found.flatMap boundNames) = none := by
    have repeated := firstRepeated_erase [] (found.flatMap boundNames)
    rw [names, firstRepeated_erase, shape.distinct] at repeated
    exact Option.map_eq_none_iff.mp repeated.symm
  refine ⟨found, ?_, equal⟩
  rw [reinterpretParameters, ok_of_toOption run]
  simp [bind, Except.bind, checkDistinctParameters, distinct, pure, Except.pure]

end Pattern

end ExprScript
