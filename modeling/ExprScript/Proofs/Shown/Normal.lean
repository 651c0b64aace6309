import ExprScript.Proofs.Shown.Tree
import ExprScript.Proofs.Tree.RoundTrip

/-! # Trees that show the same

Places do not show, and neither do parentheses that are put where the printer puts them
anyway. What a text shows is shown by its own tree as well.
-/

namespace ExprScript

/-! ## Numbers -/

namespace NumberLiteral

theorem shown_written {value : Float} (finite : value.isFinite = true)
    (positive : Number.isNegative value = false) :
    (written value).shown = .number (written value) := by
  have number : (written value).value.isNaN = false := Number.not_isNaN finite
  have bounded : (written value).value.isInf = false := Number.not_isInf finite
  have positive : Number.isNegative (written value).value = false := positive
  rw [shown, number, bounded, positive]
  rfl

theorem shown_overZero {dividend : Expr} (same : dividend.shown = dividend)
    (tight : Precedence.multiplicative ≤ dividend.precedence) :
    (overZero dividend).shown = overZero dividend := by
  have zero : (Expr.number (written 0.0)).shown = .number (written 0.0) :=
    shown_written (by decide) (by decide)
  have bound : decide (dividend.precedence < BinaryOp.precedence (.arithmetic .div)) = false :=
    decide_eq_false (Nat.not_lt.mpr tight)
  rw [overZero, Expr.shown, if_neg (by decide), same, zero, bound]
  rfl

theorem shown_magnitude {value : Float} (finite : value.isFinite = true) :
    (Number.literal value).shown = .number (Number.literal value) := by
  apply shown_written (Number.isFinite_abs finite)
  rw [Number.isNegative, (Number.plain_abs finite).not_hasSign]
  rfl

theorem shown_minus {value : Float} (finite : value.isFinite = true) :
    (Expr.unary {} .minus (.number (Number.literal value))).shown =
      .unary {} .minus (.number (Number.literal value)) := by
  have primary : (Expr.number (Number.literal value)).precedence = Precedence.primary :=
    Number.precedence_abs finite
  rw [Expr.shown, Expr.shown, shown_magnitude finite, primary]
  rfl

theorem shown_shown (literal : NumberLiteral) : literal.shown.shown = literal.shown := by
  have one : (Expr.number (written 1.0)).shown = .number (written 1.0) :=
    shown_written (by decide) (by decide)
  have cases := literal.shown_cases
  generalize literal.shown = expr at cases ⊢
  cases cases with
  | nan => exact shown_overZero (shown_written (by decide) (by decide)) (by decide)
  | infinite => exact shown_overZero one (by decide)
  | negativeInfinite =>
      exact shown_overZero (@shown_minus 1.0 (by decide)) (by decide)
  | negative finite => exact shown_minus finite
  | literal finite positive => exact shown_written finite positive

theorem shown_canonical {literal : NumberLiteral} (plain : Number.Plain literal.value) :
    literal.canonical.shown = literal.shown := by
  rw [canonical]
  split
  · next infinite =>
      have division : (Expr.binary {} (.arithmetic .div) (.number { value := 1.0, raw := "1" })
          (.number { value := 0.0, raw := "0" })).shown = overZero (.number (written 1.0)) :=
        shown_overZero (shown_written (by decide) (by decide)) (by decide)
      rw [division, shown, plain.not_isNaN, infinite, plain.not_hasSign]
      rfl
  · rfl

end NumberLiteral

/-! ## Places do not show -/

theorem Quasi.map_erase_erase (quasis : List Quasi) :
    (quasis.map Quasi.erase).map Quasi.erase = quasis.map Quasi.erase := by
  rw [List.map_map]
  rfl

mutual

theorem Expr.shown_erase : ∀ expr : Expr, expr.erase.shown = expr.shown
  | .null _ | .boolean _ _ | .number _ | .string _ | .regExp _ _ _ | .ident _ | .this _ => rfl
  | .template _ quasis holes => by
      simp only [Expr.erase, Expr.shown, shownHoles_erase holes, Quasi.map_erase_erase]
  | .array _ elements => by simp only [Expr.erase, Expr.shown, shownElements_erase elements]
  | .object _ properties => by
      simp only [Expr.erase, Expr.shown, shownProperties_erase properties]
  | .paren _ inner => by simp only [Expr.erase, Expr.shown, inner.shown_erase]
  | .arrow _ params body => by
      simp only [Expr.erase, Expr.shown, shownPatterns_erase params, body.shown_erase]
  | .unary _ op argument => by
      simp only [Expr.erase, Expr.shown, Expr.precedence_erase, argument.shown_erase]
  | .update _ op fixity argument => by
      cases fixity <;>
        simp only [Expr.erase, Expr.shown, Expr.precedence_erase, argument.shown_erase]
  | .binary _ op left right => by
      simp only [Expr.erase, Expr.shown, Expr.precedence_erase, left.shown_erase,
        right.shown_erase]
  | .logical _ op left right => by
      simp only [Expr.erase, Expr.shown, Expr.precedence_erase, Expr.conflictsWith_erase,
        left.shown_erase, right.shown_erase]
  | .conditional _ test consequent alternate => by
      simp only [Expr.erase, Expr.shown, Expr.precedence_erase, test.shown_erase,
        consequent.shown_erase, alternate.shown_erase]
  | .assign _ op target value => by
      simp only [Expr.erase, Expr.shown, Expr.precedence_erase, target.shown_erase,
        value.shown_erase]
  | .destructure _ _ pattern value => by
      simp only [Expr.erase, Expr.shown, Expr.precedence_erase, pattern.shown_erase,
        value.shown_erase]
  | .sequence _ items => by simp only [Expr.erase, Expr.shown, shownItems_erase items]
  | .member _ owner key optional => by
      cases key with
      | name id =>
          simp only [Expr.erase, MemberKey.erase, Expr.shown, Expr.precedence_erase,
            Expr.isNumber_erase, owner.shown_erase]
          rfl
      | computed key =>
          simp only [Expr.erase, MemberKey.erase, Expr.shown, Expr.precedence_erase,
            owner.shown_erase, key.shown_erase]
  | .call _ callee arguments optional => by
      simp only [Expr.erase, Expr.shown, Expr.precedence_erase, callee.shown_erase,
        shownItems_erase arguments]
  | .new _ callee arguments => by
      simp only [Expr.erase, Expr.shown, Expr.precedence_erase, Expr.callsBeforeNew_erase,
        callee.shown_erase, shownItems_erase arguments]
  | .tagged _ tag _ quasis holes => by
      simp only [Expr.erase, Expr.shown, Expr.precedence_erase, Expr.isOptionalChain_erase,
        tag.shown_erase, shownHoles_erase holes, Quasi.map_erase_erase]
  | .spread _ argument => by
      simp only [Expr.erase, Expr.shown, Expr.precedence_erase, argument.shown_erase]

theorem shownHoles_erase : ∀ holes : List Expr, shownHoles (eraseItems holes) = shownHoles holes
  | [] => rfl
  | hole :: holes => by
      simp only [eraseItems, shownHoles, hole.shown_erase, shownHoles_erase holes]

theorem shownItems_erase : ∀ items : List Expr, shownItems (eraseItems items) = shownItems items
  | [] => rfl
  | item :: items => by
      simp only [eraseItems, shownItems, Expr.precedence_erase, item.shown_erase,
        shownItems_erase items]

theorem shownElements_erase : ∀ elements : List (Option Expr),
    shownElements (eraseElements elements) = shownElements elements
  | [] => rfl
  | none :: elements => by simp only [eraseElements, shownElements, shownElements_erase elements]
  | some item :: elements => by
      simp only [eraseElements, shownElements, Expr.precedence_erase, item.shown_erase,
        shownElements_erase elements]

theorem shownProperties_erase : ∀ properties : List Property,
    shownProperties (eraseProperties properties) = shownProperties properties
  | [] => rfl
  | .spread _ argument :: properties => by
      simp only [eraseProperties, Property.erase, shownProperties, Expr.precedence_erase,
        argument.shown_erase, shownProperties_erase properties]
  | .field _ key value shorthand :: properties => by
      simp only [eraseProperties, Property.erase, shownProperties, Expr.precedence_erase,
        key.shown_erase, value.shown_erase, shownProperties_erase properties]

theorem PropertyKey.shown_erase : ∀ key : PropertyKey, key.erase.shown = key.shown
  | .name _ | .string _ | .number _ => rfl
  | .computed key => by
      simp only [PropertyKey.erase, PropertyKey.shown, Expr.precedence_erase, key.shown_erase]

theorem Pattern.shown_erase : ∀ pattern : Pattern, pattern.erase.shown = pattern.shown
  | .ident _ => rfl
  | .array _ elements => by
      simp only [Pattern.erase, Pattern.shown, shownPatternElements_erase elements]
  | .object _ properties => by
      simp only [Pattern.erase, Pattern.shown, shownPatternProperties_erase properties]
  | .rest _ argument => by simp only [Pattern.erase, Pattern.shown, argument.shown_erase]
  | .withDefault _ target value => by
      simp only [Pattern.erase, Pattern.shown, Expr.precedence_erase, target.shown_erase,
        value.shown_erase]

theorem shownPatterns_erase : ∀ patterns : List Pattern,
    shownPatterns (erasePatterns patterns) = shownPatterns patterns
  | [] => rfl
  | pattern :: patterns => by
      simp only [erasePatterns, shownPatterns, pattern.shown_erase, shownPatterns_erase patterns]

theorem shownPatternElements_erase : ∀ elements : List (Option Pattern),
    shownPatternElements (erasePatternElements elements) = shownPatternElements elements
  | [] => rfl
  | none :: elements => by
      simp only [erasePatternElements, shownPatternElements, shownPatternElements_erase elements]
  | some pattern :: elements => by
      simp only [erasePatternElements, shownPatternElements, pattern.shown_erase,
        shownPatternElements_erase elements]

theorem shownPatternProperties_erase : ∀ properties : List PatternProperty,
    shownPatternProperties (erasePatternProperties properties) = shownPatternProperties properties
  | [] => rfl
  | .rest _ argument :: properties => by
      simp only [erasePatternProperties, PatternProperty.erase, shownPatternProperties,
        argument.shown_erase, shownPatternProperties_erase properties]
  | .field _ key value shorthand :: properties => by
      simp only [erasePatternProperties, PatternProperty.erase, shownPatternProperties,
        key.shown_erase, value.shown_erase, shownPatternProperties_erase properties]

end

/-! ## What is shown shows itself -/

mutual

theorem Expr.shown_shown : ∀ expr : Expr, expr.shown.shown = expr.shown
  | .null _ | .boolean _ _ | .string _ | .regExp _ _ _ | .ident _ | .this _ => rfl
  | .number literal => literal.shown_shown
  | .template _ quasis holes => by
      simp only [Expr.shown, shownHoles_shown holes, Quasi.map_erase_erase]
  | .array _ elements => by simp only [Expr.shown, shownElements_shown elements]
  | .object _ properties => by simp only [Expr.shown, shownProperties_shown properties]
  | .paren _ inner => by simp only [Expr.shown, inner.shown_shown]
  | .arrow _ params body => by
      simp only [Expr.shown, shownPatterns_shown params, body.shown_shown]
  | .unary _ op argument => by
      simp only [Expr.shown, Slot.operand.regrouped argument.shown_shown]
  | .update _ op .before argument => by
      simp only [Expr.shown, Slot.operand.regrouped argument.shown_shown]
  | .update _ op .after argument => by
      simp only [Expr.shown, Slot.chain.regrouped argument.shown_shown]
  | .binary _ op left right => by
      have bound := op.precedence_le
      have first := left.shown_shown
      have second := right.shown_shown
      by_cases isPower : op = .arithmetic .exp
      · simp only [Expr.shown, if_pos isPower,
          (Slot.level Precedence.postfixed (by decide)).regrouped first,
          (Slot.level op.precedence (by omega)).regrouped second]
      · simp only [Expr.shown, if_neg isPower,
          (Slot.level op.precedence (by omega)).regrouped first,
          (Slot.level (op.precedence + 1) bound).regrouped second]
  | .logical _ op left right => by
      have bound := op.precedence_le
      simp only [Expr.shown, (Slot.logical op op.precedence (by omega)).regrouped left.shown_shown,
        (Slot.logical op (op.precedence + 1) bound).regrouped right.shown_shown]
  | .conditional _ test consequent alternate => by
      simp only [Expr.shown,
        (Slot.level Precedence.nullishOr (by decide)).regrouped test.shown_shown,
        Slot.item.regrouped consequent.shown_shown, Slot.item.regrouped alternate.shown_shown]
  | .assign _ op target value => by
      simp only [Expr.shown, Slot.chain.regrouped target.shown_shown,
        Slot.item.regrouped value.shown_shown]
  | .destructure _ _ pattern value => by
      simp only [Expr.shown, pattern.shown_shown, Slot.item.regrouped value.shown_shown]
  | .sequence _ items => by simp only [Expr.shown, shownItems_shown items]
  | .member _ owner (.name id) optional => by
      simp only [Expr.shown, Slot.owner.regrouped owner.shown_shown]
      rfl
  | .member _ owner (.computed key) optional => by
      simp only [Expr.shown, Slot.chain.regrouped owner.shown_shown, key.shown_shown]
  | .call _ callee arguments optional => by
      simp only [Expr.shown, Slot.chain.regrouped callee.shown_shown, shownItems_shown arguments]
  | .new _ callee arguments => by
      simp only [Expr.shown, Slot.new.regrouped callee.shown_shown, shownItems_shown arguments]
  | .tagged _ tag _ quasis holes => by
      simp only [Expr.shown, Slot.tag.regrouped tag.shown_shown, shownHoles_shown holes,
        Quasi.map_erase_erase]
  | .spread _ argument => by
      simp only [Expr.shown, Slot.item.regrouped argument.shown_shown]

theorem shownHoles_shown : ∀ holes : List Expr, shownHoles (shownHoles holes) = shownHoles holes
  | [] => rfl
  | hole :: holes => by simp only [shownHoles, hole.shown_shown, shownHoles_shown holes]

theorem shownItems_shown : ∀ items : List Expr, shownItems (shownItems items) = shownItems items
  | [] => rfl
  | item :: items => by
      simp only [shownItems, Slot.item.regrouped item.shown_shown, shownItems_shown items]

theorem shownElements_shown : ∀ elements : List (Option Expr),
    shownElements (shownElements elements) = shownElements elements
  | [] => rfl
  | none :: elements => by simp only [shownElements, shownElements_shown elements]
  | some item :: elements => by
      simp only [shownElements, Slot.item.regrouped item.shown_shown, shownElements_shown elements]

theorem shownProperties_shown : ∀ properties : List Property,
    shownProperties (shownProperties properties) = shownProperties properties
  | [] => rfl
  | .spread _ argument :: properties => by
      simp only [shownProperties, Slot.item.regrouped argument.shown_shown,
        shownProperties_shown properties]
  | .field _ key value shorthand :: properties => by
      simp only [shownProperties, key.shown_shown, Slot.item.regrouped value.shown_shown,
        shownProperties_shown properties]

theorem PropertyKey.shown_shown : ∀ key : PropertyKey, key.shown.shown = key.shown
  | .name _ | .string _ | .number _ => rfl
  | .computed key => by
      simp only [PropertyKey.shown, Slot.item.regrouped key.shown_shown]

theorem Pattern.shown_shown : ∀ pattern : Pattern, pattern.shown.shown = pattern.shown
  | .ident _ => rfl
  | .array _ elements => by simp only [Pattern.shown, shownPatternElements_shown elements]
  | .object _ properties => by simp only [Pattern.shown, shownPatternProperties_shown properties]
  | .rest _ argument => by simp only [Pattern.shown, argument.shown_shown]
  | .withDefault _ target value => by
      simp only [Pattern.shown, target.shown_shown, Slot.item.regrouped value.shown_shown]

theorem shownPatterns_shown : ∀ patterns : List Pattern,
    shownPatterns (shownPatterns patterns) = shownPatterns patterns
  | [] => rfl
  | pattern :: patterns => by
      simp only [shownPatterns, pattern.shown_shown, shownPatterns_shown patterns]

theorem shownPatternElements_shown : ∀ elements : List (Option Pattern),
    shownPatternElements (shownPatternElements elements) = shownPatternElements elements
  | [] => rfl
  | none :: elements => by simp only [shownPatternElements, shownPatternElements_shown elements]
  | some pattern :: elements => by
      simp only [shownPatternElements, pattern.shown_shown, shownPatternElements_shown elements]

theorem shownPatternProperties_shown : ∀ properties : List PatternProperty,
    shownPatternProperties (shownPatternProperties properties) = shownPatternProperties properties
  | [] => rfl
  | .rest _ argument :: properties => by
      simp only [shownPatternProperties, argument.shown_shown,
        shownPatternProperties_shown properties]
  | .field _ key value shorthand :: properties => by
      simp only [shownPatternProperties, key.shown_shown, value.shown_shown,
        shownPatternProperties_shown properties]

end

/-! ## Parentheses that are printed anyway -/

def bareBodies : Condition where
  expr expr := ∀ loc params body, expr = .arrow loc params body →
    Precedence.assignment ≤ body.precedence ∧ startsWith body.print '\x7b' = false
  pattern _ := True

def plainAndBare : Condition where
  expr expr := plainNumbers.expr expr ∧ bareBodies.expr expr
  pattern _ := True

theorem plainNumbers_of_plainAndBare {expr : Expr} (holds : expr.Everywhere plainAndBare) :
    expr.Everywhere plainNumbers :=
  Expr.everywhere_mono (fun _ (both : plainAndBare.expr _) => both.1) (fun _ _ => trivial) holds

mutual

theorem Expr.canonical_shows : ∀ expr : Expr, expr.Everywhere plainAndBare →
    expr.canonical.shown = expr.shown
  | .null _, _ | .boolean _ _, _ | .string _, _ | .regExp _ _ _, _ | .ident _, _ | .this _, _ => rfl
  | .number literal, ⟨holds, _⟩ => NumberLiteral.shown_canonical (holds.1 literal rfl)
  | .template _ quasis holes, ⟨_, inside⟩ => by
      simp only [Expr.canonical, Expr.shown, shownHoles_canonical holes inside]
  | .array _ elements, ⟨_, inside⟩ => by
      simp only [Expr.canonical, Expr.shown, shownElements_canonical elements inside]
  | .object _ properties, ⟨_, inside⟩ => by
      simp only [Expr.canonical, Expr.shown, shownProperties_canonical properties inside]
  | .paren _ inner, ⟨_, inside⟩ => by
      simp only [Expr.canonical, Expr.shown, inner.canonical_shows inside]
  | .arrow loc params body, ⟨holds, inside, inside'⟩ => by
      rcases holds.2 loc params body rfl with ⟨tight, noBrace⟩
      have text : body.canonical.print = body.print :=
        body.print_canonical (plainNumbers_of_plainAndBare inside')
      have alone : body.canonical.grouped (body.precedence < Precedence.assignment) =
          body.canonical := by
        rw [decide_eq_false (Nat.not_lt.mpr tight)]
        rfl
      simp only [Expr.canonical, alone, text, noBrace, Expr.shown,
        shownPatterns_canonical params inside]
      exact congrArg _ (body.canonical_shows inside')
  | .unary _ op argument, ⟨_, inside⟩ => by
      simp only [Expr.canonical, Expr.shown,
        Slot.operand.regrouped (argument.canonical_shows inside)]
  | .update _ op .before argument, ⟨_, inside⟩ => by
      simp only [Expr.canonical, Expr.shown,
        Slot.operand.regrouped (argument.canonical_shows inside)]
  | .update _ op .after argument, ⟨_, inside⟩ => by
      simp only [Expr.canonical, Expr.shown,
        Slot.chain.regrouped (argument.canonical_shows inside)]
  | .binary _ op left right, ⟨_, inside, inside'⟩ => by
      have bound := op.precedence_le
      have first := left.canonical_shows inside
      have second := right.canonical_shows inside'
      by_cases isPower : op = .arithmetic .exp
      · simp only [Expr.canonical, Expr.shown, if_pos isPower,
          (Slot.level Precedence.postfixed (by decide)).regrouped first,
          (Slot.level op.precedence (by omega)).regrouped second]
      · simp only [Expr.canonical, Expr.shown, if_neg isPower,
          (Slot.level op.precedence (by omega)).regrouped first,
          (Slot.level (op.precedence + 1) bound).regrouped second]
  | .logical _ op left right, ⟨_, inside, inside'⟩ => by
      have bound := op.precedence_le
      have first := left.canonical_shows inside
      have second := right.canonical_shows inside'
      simp only [Expr.canonical, Expr.shown,
        (Slot.logical op op.precedence (by omega)).regrouped first,
        (Slot.logical op (op.precedence + 1) bound).regrouped second]
  | .conditional _ test consequent alternate, ⟨_, inside, inside', inside''⟩ => by
      simp only [Expr.canonical, Expr.shown,
        (Slot.level Precedence.nullishOr (by decide)).regrouped (test.canonical_shows inside),
        Slot.item.regrouped (consequent.canonical_shows inside'),
        Slot.item.regrouped (alternate.canonical_shows inside'')]
  | .assign _ op target value, ⟨_, inside, inside'⟩ => by
      simp only [Expr.canonical, Expr.shown,
        Slot.chain.regrouped (target.canonical_shows inside),
        Slot.item.regrouped (value.canonical_shows inside')]
  | .destructure _ _ pattern value, ⟨_, inside, inside'⟩ => by
      simp only [Expr.canonical, Expr.shown, pattern.shown_canonical inside.2,
        Slot.item.regrouped (value.canonical_shows inside')]
  | .sequence _ items, ⟨_, inside⟩ => by
      simp only [Expr.canonical, Expr.shown, shownItems_canonical items inside]
  | .member _ owner (.name id) optional, ⟨_, inside, _⟩ => by
      simp only [Expr.canonical, Expr.shown,
        Slot.owner.regrouped (owner.canonical_shows inside)]
  | .member _ owner (.computed key) optional, ⟨_, inside, inside'⟩ => by
      simp only [Expr.canonical, Expr.shown,
        Slot.chain.regrouped (owner.canonical_shows inside), key.canonical_shows inside']
  | .call _ callee arguments optional, ⟨_, inside, inside'⟩ => by
      simp only [Expr.canonical, Expr.shown,
        Slot.chain.regrouped (callee.canonical_shows inside),
        shownItems_canonical arguments inside']
  | .new _ callee arguments, ⟨_, inside, inside'⟩ => by
      simp only [Expr.canonical, Expr.shown,
        Slot.new.regrouped (callee.canonical_shows inside),
        shownItems_canonical arguments inside']
  | .tagged _ tag _ quasis holes, ⟨_, inside, inside'⟩ => by
      simp only [Expr.canonical, Expr.shown,
        Slot.tag.regrouped (tag.canonical_shows inside), shownHoles_canonical holes inside']
  | .spread _ argument, ⟨_, inside⟩ => by
      simp only [Expr.canonical, Expr.shown,
        Slot.item.regrouped (argument.canonical_shows inside)]

theorem shownHoles_canonical : ∀ holes : List Expr, itemsInside plainAndBare holes →
    shownHoles (canonicalHoles holes) = shownHoles holes
  | [], _ => rfl
  | hole :: holes, ⟨inside, inside'⟩ => by
      simp only [canonicalHoles, shownHoles, hole.canonical_shows inside,
        shownHoles_canonical holes inside']

theorem shownItems_canonical : ∀ items : List Expr, itemsInside plainAndBare items →
    shownItems (canonicalItems items) = shownItems items
  | [], _ => rfl
  | item :: items, ⟨inside, inside'⟩ => by
      simp only [canonicalItems, shownItems, Slot.item.regrouped (item.canonical_shows inside),
        shownItems_canonical items inside']

theorem shownElements_canonical : ∀ elements : List (Option Expr),
    elementsInside plainAndBare elements →
      shownElements (canonicalElements elements) = shownElements elements
  | [], _ => rfl
  | none :: elements, inside => by
      simp only [canonicalElements, shownElements, shownElements_canonical elements inside]
  | some item :: elements, ⟨inside, inside'⟩ => by
      simp only [canonicalElements, shownElements,
        Slot.item.regrouped (item.canonical_shows inside),
        shownElements_canonical elements inside']

theorem shownProperties_canonical : ∀ properties : List Property,
    propertiesInside plainAndBare properties →
      shownProperties (canonicalProperties properties) = shownProperties properties
  | [], _ => rfl
  | .spread _ argument :: properties, ⟨inside, inside'⟩ => by
      simp only [canonicalProperties, shownProperties,
        Slot.item.regrouped (argument.canonical_shows inside),
        shownProperties_canonical properties inside']
  | .field _ key value shorthand :: properties, ⟨⟨keyInside, inside⟩, inside'⟩ => by
      simp only [canonicalProperties, shownProperties, key.shown_canonical keyInside,
        Slot.item.regrouped (value.canonical_shows inside),
        shownProperties_canonical properties inside']

theorem PropertyKey.shown_canonical : ∀ key : PropertyKey, key.Inside plainAndBare →
    key.canonical.shown = key.shown
  | .name _, _ | .string _, _ | .number _, _ => rfl
  | .computed key, inside => by
      simp only [PropertyKey.canonical, PropertyKey.shown,
        Slot.item.regrouped (key.canonical_shows inside)]

theorem Pattern.shown_canonical : ∀ pattern : Pattern, pattern.Inside plainAndBare →
    pattern.canonical.shown = pattern.shown
  | .ident _, _ => rfl
  | .array _ elements, inside => by
      simp only [Pattern.canonical, Pattern.shown, shownPatternElements_canonical elements inside]
  | .object _ properties, inside => by
      simp only [Pattern.canonical, Pattern.shown,
        shownPatternProperties_canonical properties inside]
  | .rest _ argument, inside => by
      simp only [Pattern.canonical, Pattern.shown, argument.shown_canonical inside.2]
  | .withDefault _ target value, ⟨inside, inside'⟩ => by
      simp only [Pattern.canonical, Pattern.shown, target.shown_canonical inside.2,
        Slot.item.regrouped (value.canonical_shows inside')]

theorem shownPatterns_canonical : ∀ patterns : List Pattern,
    patternsInside plainAndBare patterns →
      shownPatterns (canonicalPatterns patterns) = shownPatterns patterns
  | [], _ => rfl
  | pattern :: patterns, ⟨inside, inside'⟩ => by
      simp only [canonicalPatterns, shownPatterns, pattern.shown_canonical inside.2,
        shownPatterns_canonical patterns inside']

theorem shownPatternElements_canonical : ∀ elements : List (Option Pattern),
    patternElementsInside plainAndBare elements →
      shownPatternElements (canonicalPatternElements elements) = shownPatternElements elements
  | [], _ => rfl
  | none :: elements, inside => by
      simp only [canonicalPatternElements, shownPatternElements,
        shownPatternElements_canonical elements inside]
  | some pattern :: elements, ⟨inside, inside'⟩ => by
      simp only [canonicalPatternElements, shownPatternElements,
        pattern.shown_canonical inside.2, shownPatternElements_canonical elements inside']

theorem shownPatternProperties_canonical : ∀ properties : List PatternProperty,
    patternPropertiesInside plainAndBare properties →
      shownPatternProperties (canonicalPatternProperties properties) =
        shownPatternProperties properties
  | [], _ => rfl
  | .rest _ argument :: properties, ⟨inside, inside'⟩ => by
      simp only [canonicalPatternProperties, shownPatternProperties,
        argument.shown_canonical inside.2, shownPatternProperties_canonical properties inside']
  | .field _ key value shorthand :: properties, ⟨⟨keyInside, inside⟩, inside'⟩ => by
      simp only [canonicalPatternProperties, shownPatternProperties,
        key.shown_canonical keyInside, value.shown_canonical inside.2,
        shownPatternProperties_canonical properties inside']

end

theorem Expr.shown_canonical {expr : Expr} (plain : expr.Everywhere plainNumbers)
    (bare : expr.Everywhere bareBodies) : expr.canonical.shown = expr.shown := by
  apply expr.canonical_shows
  have joins : plainNumbers.Joins bareBodies plainAndBare :=
    ⟨fun _ plain bare => ⟨plain, bare⟩, fun _ _ _ => trivial⟩
  exact Expr.everywhere_join joins plain bare

end ExprScript
