import ExprScript.Proofs.Grammar.Expression
import ExprScript.Proofs.SyntaxErrors
import ExprScript.Proofs.Tree.Cover

/-! # Patterns keep the text of their expressions

An expression that is rebuilt as a pattern is printed as before and stands at the same
place, and its rests are the last parts of their lists. What the pattern is for decides
the wording of errors and nothing else.
-/

namespace ExprScript

/-! ## The use of a pattern -/

mutual

/-- A pattern for one use is a pattern for the other, and it is the same one. -/
theorem reinterpret_use (use use' : PatternUse) : ∀ expr : Expr,
    (reinterpret use expr).toOption = (reinterpret use' expr).toOption
  | .ident _ => by rw [reinterpret, reinterpret]
  | .array _ elements => by
      simp only [reinterpret, toOption_bind, reinterpretElements_use use use' elements]
  | .object _ properties => by
      simp only [reinterpret, toOption_bind, reinterpretProperties_use use use' properties]
  | .assign _ op target _ => by
      cases op with
      | plain => simp only [reinterpret, toOption_bind, reinterpret_use use use' target]
      | _ => rfl
  | .destructure _ op _ _ => by cases op <;> rfl
  | .null _ | .boolean _ _ | .number _ | .string _ | .regExp _ _ _ | .template _ _ _
  | .this _ | .paren _ _ | .arrow _ _ _ | .unary _ _ _ | .call _ _ _ _ | .member _ _ _ _
  | .update _ _ _ _ | .binary _ _ _ _ | .logical _ _ _ _ | .conditional _ _ _ _
  | .sequence _ _ | .new _ _ _ | .tagged _ _ _ _ _ | .spread _ _ => rfl

theorem reinterpretElements_use (use use' : PatternUse) : ∀ elements : List (Option Expr),
    (reinterpretElements use elements).toOption = (reinterpretElements use' elements).toOption
  | [] => by rw [reinterpretElements, reinterpretElements]
  | none :: elements => by
      simp only [reinterpretElements, toOption_bind, reinterpretElements_use use use' elements]
  | some expr :: elements => by
      by_cases isSpread : expr.kind = .spreadElement
      · cases expr with
        | spread loc argument =>
            have inner := reinterpret_use use use' argument
            simp only [reinterpretElements]
            cases elements.isEmpty <;> cases argument.isAssignment <;>
              simp only [toOption_bind, inner, Bool.not_true, Bool.not_false, if_true,
                Bool.false_eq_true, if_false] <;> rfl
        | _ => cases isSpread
      · rw [reinterpretElements_some _ isSpread, reinterpretElements_some _ isSpread]
        simp only [toOption_bind, reinterpret_use use use' expr,
          reinterpretElements_use use use' elements]

theorem reinterpretProperties_use (use use' : PatternUse) : ∀ properties : List Property,
    (reinterpretProperties use properties).toOption =
      (reinterpretProperties use' properties).toOption
  | [] => by rw [reinterpretProperties, reinterpretProperties]
  | .spread _ argument :: properties => by
      cases argument <;> cases isLast : properties.isEmpty <;>
        simp only [reinterpretProperties, isLast] <;> rfl
  | .field _ _ value _ :: properties => by
      simp only [reinterpretProperties, toOption_bind, reinterpret_use use use' value,
        reinterpretProperties_use use use' properties]

end

/-! ## Places -/

theorem loc_reinterpret {use : PatternUse} {expr : Expr} {pattern : Pattern}
    (run : reinterpret use expr = .ok pattern) : pattern.loc = expr.loc := by
  cases expr with
  | ident id =>
      cases run
      rfl
  | destructure loc op inner value =>
      cases op with
      | plain =>
          cases run
          rfl
      | _ => cases run
  | array loc elements | object loc properties =>
      rw [reinterpret] at run
      rcases except_bind_ok run with ⟨parts, -, final⟩
      cases final
      rfl
  | assign loc op target value =>
      cases op with
      | plain =>
          rw [reinterpret] at run
          rcases except_bind_ok run with ⟨inner, -, final⟩
          cases final
          rfl
      | _ => cases run
  | _ => cases run

/-! ## Text -/

theorem tight_of_reinterpret {use : PatternUse} {expr : Expr} {pattern : Pattern}
    (run : reinterpret use expr = .ok pattern) : Precedence.assignment ≤ expr.precedence := by
  cases expr with
  | ident | array | object => exact Precedence.assignment_le_primary
  | assign | destructure => exact Nat.le_refl _
  | _ => cases run

theorem tight_of_isTarget {use : PatternUse} {expr : Expr} {pattern : Pattern}
    (run : reinterpret use expr = .ok pattern) (isTarget : pattern.isTarget = true) :
    Precedence.call ≤ expr.precedence := by
  cases expr with
  | ident | array | object => exact Precedence.call_le_primary
  | destructure loc op inner value =>
      cases op with
      | plain =>
          cases run
          cases isTarget
      | _ => cases run
  | assign loc op target value =>
      cases op with
      | plain =>
          rw [reinterpret] at run
          rcases except_bind_ok run with ⟨inner, -, final⟩
          cases final
          cases isTarget
      | _ => cases run
  | _ => cases run

theorem endsInHole_reinterpret {use : PatternUse} {elements : List (Option Expr)}
    {patterns : List (Option Pattern)} (run : reinterpretElements use elements = .ok patterns) :
    endsInHole patterns = endsInHole elements ∧ patterns.isEmpty = elements.isEmpty := by
  induction elements generalizing patterns with
  | nil =>
      rw [reinterpretElements] at run
      cases run
      exact ⟨rfl, rfl⟩
  | cons element elements induction =>
      cases element with
      | none =>
          rw [reinterpretElements] at run
          rcases except_bind_ok run with ⟨others, rebuilt, final⟩
          cases final
          rcases induction rebuilt with ⟨hole, isEmpty⟩
          refine ⟨?_, rfl⟩
          rw [endsInHole_cons, endsInHole_cons, isEmpty, hole]
          rfl
      | some expr =>
          by_cases isSpread : expr.kind = .spreadElement
          · cases expr with
            | spread loc argument =>
                rw [reinterpretElements] at run
                rcases rest_run (fun _ wrong => by cases wrong) run with
                  ⟨isLast, -, pattern, -, final⟩
                cases final
                rw [Bool.not_eq_false', List.isEmpty_iff] at isLast
                subst isLast
                exact ⟨rfl, rfl⟩
            | _ => cases isSpread
          · rw [reinterpretElements_some _ isSpread] at run
            rcases except_bind_ok run with ⟨pattern, -, run⟩
            rcases except_bind_ok run with ⟨others, rebuilt, final⟩
            cases final
            rcases induction rebuilt with ⟨hole, isEmpty⟩
            refine ⟨?_, rfl⟩
            rw [endsInHole_cons, endsInHole_cons, isEmpty, hole]
            rfl

mutual

/-- The pattern is printed like the expression. A default is the only place where the
printer would put parentheses around a part, if that part had a default, too. -/
theorem print_reinterpret (use : PatternUse) : ∀ (expr : Expr) (pattern : Pattern),
    reinterpret use expr = .ok pattern → pattern.Grammatical → pattern.print = expr.print
  | .ident id, _, run, _ => by
      rw [reinterpret] at run
      cases run
      rw [Pattern.print, Expr.print]
  | .array loc elements, _, run, ⟨_, inside⟩ => by
      rw [reinterpret] at run
      rcases except_bind_ok run with ⟨patterns, rebuilt, final⟩
      cases final
      rw [Pattern.print, Expr.print, printElements_reinterpret use elements patterns rebuilt inside,
        (endsInHole_reinterpret rebuilt).1]
  | .object loc properties, _, run, ⟨_, inside⟩ => by
      rw [reinterpret] at run
      rcases except_bind_ok run with ⟨patterns, rebuilt, final⟩
      cases final
      rw [Pattern.print, Expr.print,
        printProperties_reinterpret use properties patterns rebuilt inside]
  | .assign loc op target value, _, run, grammatical => by
      cases op with
      | plain =>
          rw [reinterpret] at run
          rcases except_bind_ok run with ⟨inner, rebuilt, final⟩
          cases final
          rcases grammatical with ⟨⟨⟨isTarget, -⟩, -⟩, inside, -⟩
          rw [Pattern.print, Expr.print, print_reinterpret use target inner rebuilt inside,
            Expr.group_tight (tight_of_isTarget rebuilt isTarget)]
          simp only [AssignOp.spelling, String.append_assoc]
          rfl
      | _ => cases run
  | .destructure loc op inner value, _, run, _ => by
      cases op with
      | plain =>
          cases run
          rw [Pattern.print, Expr.print, AssignOp.spelling]
          simp only [String.append_assoc]
          rfl
      | _ => cases run
  | .null _, _, run, _ | .boolean _ _, _, run, _ | .number _, _, run, _ | .string _, _, run, _
  | .regExp _ _ _, _, run, _ | .template _ _ _, _, run, _ | .this _, _, run, _
  | .paren _ _, _, run, _ | .arrow _ _ _, _, run, _ | .unary _ _ _, _, run, _
  | .call _ _ _ _, _, run, _ | .member _ _ _ _, _, run, _ | .update _ _ _ _, _, run, _
  | .binary _ _ _ _, _, run, _ | .logical _ _ _ _, _, run, _ | .conditional _ _ _ _, _, run, _
  | .sequence _ _, _, run, _ | .new _ _ _, _, run, _ | .tagged _ _ _ _ _, _, run, _
  | .spread _ _, _, run, _ => nomatch run

theorem printElements_reinterpret (use : PatternUse) : ∀ (elements : List (Option Expr))
    (patterns : List (Option Pattern)), reinterpretElements use elements = .ok patterns →
      patternElementsInside grammatical patterns →
        printPatternElements patterns = printElements elements
  | [], _, run, _ => by
      rw [reinterpretElements] at run
      cases run
      rw [printElements, printPatternElements]
  | none :: elements, _, run, inside => by
      rw [reinterpretElements] at run
      rcases except_bind_ok run with ⟨others, rebuilt, final⟩
      cases final
      rw [printElements, printPatternElements,
        printElements_reinterpret use elements others rebuilt inside]
  | some expr :: elements, _, run, inside => by
      by_cases isSpread : expr.kind = .spreadElement
      · cases expr with
        | spread loc argument =>
            rw [reinterpretElements] at run
            rcases rest_run (fun _ wrong => by cases wrong) run with
              ⟨isLast, -, pattern, rebuilt, final⟩
            cases final
            rw [Bool.not_eq_false', List.isEmpty_iff] at isLast
            subst isLast
            have same := print_reinterpret use argument pattern rebuilt inside.1.2
            have tight : Precedence.assignment ≤ (Expr.spread loc argument).precedence :=
              Nat.le_refl _
            rw [printElements, printPatternElements, Expr.group_tight tight, Pattern.print,
              Expr.print, same, Expr.group_tight (tight_of_reinterpret rebuilt),
              printElements, printPatternElements]
        | _ => cases isSpread
      · rw [reinterpretElements_some _ isSpread] at run
        rcases except_bind_ok run with ⟨pattern, first, run⟩
        rcases except_bind_ok run with ⟨others, rebuilt, final⟩
        cases final
        rw [printElements, printPatternElements, Expr.group_tight (tight_of_reinterpret first),
          print_reinterpret use expr pattern first inside.1,
          printElements_reinterpret use elements others rebuilt inside.2]

theorem printProperties_reinterpret (use : PatternUse) : ∀ (properties : List Property)
    (patterns : List PatternProperty), reinterpretProperties use properties = .ok patterns →
      patternPropertiesInside grammatical patterns →
        printPatternProperties patterns = printProperties properties
  | [], _, run, _ => by
      rw [reinterpretProperties] at run
      cases run
      rw [printProperties, printPatternProperties]
  | .spread loc argument :: properties, _, run, _ => by
      cases argument with
      | ident id =>
          cases properties with
          | cons => cases run
          | nil =>
              cases run
              rw [printProperties, printPatternProperties,
                Expr.group_tight Precedence.assignment_le_primary, Pattern.print, Expr.print,
                printProperties, printPatternProperties]
      | _ => cases properties <;> cases run
  | .field loc key value shorthand :: properties, _, run, inside => by
      rw [reinterpretProperties] at run
      rcases except_bind_ok run with ⟨pattern, first, run⟩
      rcases except_bind_ok run with ⟨others, rebuilt, final⟩
      cases final
      rw [printProperties, printPatternProperties, Expr.group_tight (tight_of_reinterpret first),
        print_reinterpret use value pattern first inside.1.2,
        printProperties_reinterpret use properties others rebuilt inside.2]

end

/-! ## Rests -/

/-- Only the last part of an array, of an object or of the parameters may be a rest, and
nothing but these lists has one. -/
def restsAtEnd : Condition where
  expr := fun
    | .arrow _ params _ => ∀ param ∈ params.dropLast, param.kind ≠ .restElement
    | .destructure _ _ pattern _ => pattern.kind ≠ .restElement
    | _ => True
  pattern := fun
    | .ident _ => True
    | .array _ elements =>
      ∀ pattern, some pattern ∈ elements.dropLast → pattern.kind ≠ .restElement
    | .object _ properties =>
      (∀ loc argument, PatternProperty.rest loc argument ∉ properties.dropLast) ∧
        ∀ loc key value shorthand, PatternProperty.field loc key value shorthand ∈ properties →
          value.kind ≠ .restElement
    | .rest _ argument => argument.kind ≠ .restElement
    | .withDefault _ target _ => target.kind ≠ .restElement

theorem Pattern.notRest_of_isComposite {pattern : Pattern}
    (composite : pattern.isComposite = true) : pattern.kind ≠ .restElement := by
  cases pattern with
  | rest => cases composite
  | _ => rintro ⟨⟩

theorem Pattern.Grammatical.restsAtEnd {pattern : Pattern} (grammatical : pattern.Grammatical) :
    pattern.Everywhere restsAtEnd := by
  have joins : ExprScript.grammatical.Joins ExprScript.grammatical ExprScript.restsAtEnd := by
    constructor
    · rintro expr ⟨shape, -⟩ -
      cases expr with
      | arrow => exact shape.1.1
      | destructure => exact Pattern.notRest_of_isComposite shape.2.1
      | _ => trivial
    · rintro pattern ⟨shape, -⟩ -
      cases pattern with
      | ident => trivial
      | array => exact shape
      | object => exact ⟨shape.2, fun _ _ _ _ member => (shape.1 _ member).2.1⟩
      | rest => exact Pattern.notRest_of_isTarget shape
      | withDefault => exact Pattern.notRest_of_isTarget shape.1
  exact ⟨joins.pattern _ grammatical.1 grammatical.1,
    pattern.inside_join joins grammatical.2 grammatical.2⟩

/-! ## What the parser builds -/

namespace Parse

def phrases (rules : Rules) : List (Parse Expr) :=
  [expression rules, assignment rules, conditional rules, binary rules, exponent rules,
    unary rules, postfixed rules, chain rules, primary rules, nameOrArrow rules,
    groupOrArrow rules, arrayLiteral rules, objectLiteral rules]

/-- The parser builds what a rule reads at some place of a text, and the parts of the
trees of whole texts. A literal that may still become a pattern is what a rule reads; in
the tree of the whole text the pattern has taken its place. -/
inductive Builds : Expr → Prop
  | read {depth : Nat} {phrase : Parse Expr} {before after : ParserState} {expr : Expr}
      (member : phrase ∈ phrases (rules depth)) (sound : before.Sound)
      (run : phrase before = .ok expr after) : Builds expr
  | part {source : String} {strict : Bool} {whole expr : Expr}
      (parsed : parse source strict = .ok whole) (contains : whole.Contains expr) : Builds expr

end Parse

mutual

/-- In a grammatical tree, patterns can only be rebuilt from grammatical parts. -/
theorem Expr.asPattern_of_grammatical : ∀ expr : Expr, expr.Grammatical → expr.AsPattern
  | .ident _, grammatical => Expr.asPattern_ident grammatical.1.2
  | .array _ elements, grammatical =>
    Expr.asPattern_array (asElements_of_grammatical elements grammatical.2)
  | .object _ properties, ⟨⟨shape, lexical⟩, inside⟩ =>
    Expr.asPattern_object (asPatterns_of_grammatical properties shape lexical inside)
  | .assign _ _ target _, ⟨⟨⟨⟨simple, _⟩, operand⟩, _⟩, inside, inside'⟩ =>
    Expr.asPattern_assign simple (target.asPattern_of_grammatical inside) operand inside'
  | .destructure _ _ _ _, ⟨⟨⟨_, composite, operand⟩, _⟩, inside, inside'⟩ =>
    Expr.asPattern_destructure composite inside operand inside'
  | .null _, _ | .boolean _ _, _ | .number _, _ | .string _, _ | .regExp _ _ _, _
  | .template _ _ _, _ | .this _, _ | .paren _ _, _ | .arrow _ _ _, _ | .unary _ _ _, _
  | .call _ _ _ _, _ | .member _ _ _ _, _ | .update _ _ _ _, _ | .binary _ _ _ _, _
  | .logical _ _ _ _, _ | .conditional _ _ _ _, _ | .sequence _ _, _ | .new _ _ _, _
  | .tagged _ _ _ _ _, _ | .spread _ _, _ => Expr.asPattern_of_refused fun _ => rfl

theorem asElements_of_grammatical : ∀ elements : List (Option Expr),
    elementsInside grammatical elements → ∀ item, some item ∈ elements → item.AsElement
  | [], _, _, member => nomatch member
  | none :: elements, inside, item, member =>
    asElements_of_grammatical elements inside item (by simpa using member)
  | some first :: elements, ⟨inside, inside'⟩, item, member => by
      have own : first.AsElement := by
        cases isSpread : first.isSpread with
        | false =>
            exact Parse.asElement_of_asPattern isSpread (first.asPattern_of_grammatical inside)
        | true =>
            cases first with
            | spread loc argument => exact argument.asPattern_of_grammatical inside.2
            | _ => cases isSpread
      rcases List.mem_cons.mp member with equal | member
      · cases equal
        exact own
      · exact asElements_of_grammatical elements inside' item member

theorem asPatterns_of_grammatical : ∀ properties : List Property,
    (∀ property ∈ properties, property.Shape) → (∀ property ∈ properties, property.Lexical) →
      propertiesInside grammatical properties → ∀ property ∈ properties, property.AsPattern
  | [], _, _, _, _, member => nomatch member
  | first :: properties, shape, lexical, ⟨inside, inside'⟩, property, member => by
      have own : first.AsPattern := by
        have shaped := shape _ (List.mem_cons_self ..)
        cases first with
        | spread loc argument => exact argument.asPattern_of_grammatical inside
        | field loc key value shorthand =>
            refine ⟨⟨shaped.1, lexical _ (List.mem_cons_self ..), inside.1⟩,
              value.asPattern_of_grammatical inside.2, fun short => ?_⟩
            rcases shaped.2.2 short with ⟨id, named, same⟩
            exact ⟨id, named, .inl same⟩
      rcases List.mem_cons.mp member with equal | member
      · exact equal ▸ own
      · exact asPatterns_of_grammatical properties
          (fun other member => shape other (List.mem_cons_of_mem _ member))
          (fun other member => lexical other (List.mem_cons_of_mem _ member)) inside' _ member

end

namespace Parse

theorem asPattern_of_level {level : Nat} {stops : TokenKind → Prop} {phrase : Parse Expr}
    (holds : Level level stops phrase) {before after : ParserState} (sound : before.Sound)
    {expr : Expr} (run : phrase before = .ok expr after) : expr.AsPattern :=
  (holds before sound _ _ run).2.1.asPattern

theorem Builds.asPattern {expr : Expr} (built : Builds expr) : expr.AsPattern := by
  cases built with
  | part parsed contains =>
      exact Expr.asPattern_of_grammatical _ (contains _ (parse_grammatical parsed).1)
  | @read depth phrase before after _ member sound run =>
      have hold := rules_hold depth
      simp only [phrases, List.mem_cons, List.not_mem_nil, or_false] at member
      rcases member with rfl | rfl | rfl | rfl | rfl | rfl | rfl | rfl | rfl | rfl | rfl | rfl | rfl
      · exact Expr.asPattern_of_grammatical _ (expression_ensures hold sound _ _ run).2.1
      · exact (assignment_ensures hold sound _ _ run).2.1.asPattern
      · exact asPattern_of_level (conditional_ensures hold) sound run
      · exact asPattern_of_level (binary_ensures hold) sound run
      · exact asPattern_of_level (exponent_ensures hold) sound run
      · exact asPattern_of_level (unary_ensures hold) sound run
      · exact asPattern_of_level (postfixed_ensures hold) sound run
      · exact asPattern_of_level (chain_ensures hold) sound run
      · exact (primary_ensures hold sound _ _ run).2.1.asPattern
      · exact (nameOrArrow_ensures hold sound _ _ run).2.1.asPattern
      · exact (groupOrArrow_ensures hold sound _ _ run).2.1.asPattern
      · exact (arrayLiteral_ensures hold sound _ _ run).2.1.asPattern
      · exact (objectLiteral_ensures hold sound _ _ run).2.1.asPattern

end Parse

/-- A pattern that is rebuilt from what the parser has built has the text and the place of
the expression, and every rest in it is the last part of its list. The use of the pattern
does not matter. -/
theorem reinterpret_keeps_text (expr : Expr) (built : Parse.Builds expr) :
    (∀ use pattern, reinterpret use expr = .ok pattern →
      pattern.print = expr.print ∧ pattern.loc = expr.loc ∧
        pattern.kind ≠ .restElement ∧ pattern.Everywhere restsAtEnd) ∧
      ∀ use use', (reinterpret use expr).toOption = (reinterpret use' expr).toOption := by
  refine ⟨fun use pattern run => ?_, fun use use' => reinterpret_use use use' expr⟩
  have grammatical := built.asPattern use pattern run
  exact ⟨print_reinterpret use expr pattern run grammatical, loc_reinterpret run,
    (reinterpret_kind run).1, grammatical.restsAtEnd⟩

def coverText : String := "{a = 1, b: [c, ...d], ...e}"

def readPattern (source : String) : Option (Expr × Pattern) :=
  match Scanner.next (.ofString source) with
  | .error _ _ => none
  | .ok lookahead scanner =>
    match Parse.objectLiteral (Parse.rules source.length)
        { scanner, lookahead, previousEnd := lookahead.span.start, strict := false } with
    | .error _ _ => none
    | .ok expr _ => (reinterpret .assignment expr).toOption.map (expr, ·)

theorem reinterpret_keeps_text_cover : ∃ expr pattern, Parse.Builds expr ∧
    reinterpret .assignment expr = .ok pattern ∧
    pattern.print = "{ a = 1, b: [c, ...d], ...e }" ∧ pattern.print = expr.print ∧
    pattern.loc = expr.loc ∧ pattern.kind ≠ .restElement ∧ pattern.Everywhere restsAtEnd := by
  have text : (readPattern coverText).map (·.2.print) = some "{ a = 1, b: [c, ...d], ...e }" := by
    decide +kernel
  rcases Option.map_eq_some_iff.mp text with ⟨⟨expr, pattern⟩, found, printed⟩
  unfold readPattern at found
  split at found
  · cases found
  next lookahead scanner run =>
    split at found
    · cases found
    next read =>
      rcases Option.map_eq_some_iff.mp found with ⟨_, rebuilt, equal⟩
      cases equal
      have rebuilt := Pattern.ok_of_toOption rebuilt
      have member : ∀ rules, Parse.objectLiteral rules ∈ Parse.phrases rules :=
        fun rules => List.mem_of_getLast? rfl
      have built : Parse.Builds expr :=
        .read (member _) ⟨⟨_, Scanner.placed_ofString _, run⟩, Nat.zero_le _⟩ read
      exact ⟨expr, pattern, built, rebuilt, printed,
        (reinterpret_keeps_text expr built).1 .assignment pattern rebuilt⟩

end ExprScript
