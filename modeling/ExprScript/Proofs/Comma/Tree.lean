import ExprScript.Proofs.Comma.Next
import ExprScript.Proofs.Tree.Grammatical

/-! # Commas behind the rests of a tree

A rest is the last part of a list. Behind it in the source stands the mark that closes the
list, or a comma before that mark. While a literal may still become a pattern, the spreads of
arrays that a comma follows are noted; a pattern that has none of them is free of such commas.
-/

namespace ExprScript

def Braced (source : List Char) (part object : Span) : Prop :=
  FollowedBy source part.stop.offset '\x7d' object.stop.offset ∨
    ∃ comma, FollowedBy source part.stop.offset ',' comma ∧
      FollowedBy source comma '\x7d' object.stop.offset

/-- Behind a rest, an array is closed without a comma, and so is a parameter list. An object is
closed there, but a comma may stand before the brace. -/
def restsLast (source : List Char) : Condition where
  expr := fun
    | .arrow _ params _ => ∀ rest argument, Pattern.rest rest argument ∈ params →
        ∃ stop, FollowedBy source rest.stop.offset ')' stop
    | _ => True
  pattern := fun
    | .array loc elements => ∀ rest argument, some (Pattern.rest rest argument) ∈ elements →
        FollowedBy source rest.stop.offset ']' loc.stop.offset
    | .object loc properties => ∀ rest argument, PatternProperty.rest rest argument ∈ properties →
        Braced source rest loc
    | _ => True

/-- The same, with the spreads that may still become rests. In an array, a comma is allowed that
has been noted. -/
def noted (source : List Char) (commas : List TrailingComma) : Condition where
  expr := fun
    | .array loc elements => ∀ rest argument,
        elements.getLast? = some (some (.spread rest argument)) →
          FollowedBy source rest.stop.offset ']' loc.stop.offset ∨
            ∃ comma, (rest.start, comma) ∈ commas
    | .object loc properties => ∀ rest argument,
        properties.getLast? = some (.spread rest argument) → Braced source rest loc
    | expr => (restsLast source).expr expr
  pattern := (restsLast source).pattern

variable {source : List Char} {commas commas' : List TrailingComma}

/-! ## More commas -/

theorem noted_joins (within : commas ⊆ commas') :
    (noted source commas).Joins (noted source commas) (noted source commas') := by
  refine ⟨?_, fun _ holds _ => holds⟩
  intro expr holds _
  cases expr with
  | array loc elements =>
      intro rest argument last
      rcases holds rest argument last with closed | ⟨comma, member⟩
      · exact .inl closed
      · exact .inr ⟨comma, within member⟩
  | _ => exact holds

theorem Expr.noted_mono (within : commas ⊆ commas') {expr : Expr}
    (everywhere : expr.Everywhere (noted source commas)) :
    expr.Everywhere (noted source commas') :=
  expr.everywhere_join (noted_joins within) everywhere everywhere

theorem Property.noted_mono (within : commas ⊆ commas') {property : Property}
    (inside : property.Inside (noted source commas)) : property.Inside (noted source commas') :=
  property.inside_join (noted_joins within) inside inside

theorem Expr.restsLast_of_noted {expr : Expr} (everywhere : expr.Everywhere (noted source commas)) :
    expr.Everywhere (restsLast source) := by
  have exprs : ∀ expr, (noted source commas).expr expr → (restsLast source).expr expr := by
    intro expr holds
    cases expr with
    | arrow => exact holds
    | _ => trivial
  exact everywhere_mono exprs (fun _ holds => holds) everywhere

/-! ## Rests come from spreads -/

theorem spread_of_reinterpretElements {use : PatternUse} {elements : List (Option Expr)}
    {patterns : List (Option Pattern)} (run : reinterpretElements use elements = .ok patterns)
    {rest : Span} {argument : Pattern} (member : some (.rest rest argument) ∈ patterns) :
    ∃ argument', elements.getLast? = some (some (.spread rest argument')) := by
  induction elements generalizing patterns with
  | nil =>
      cases run
      cases member
  | cons element elements induction =>
      have later : ∀ others, reinterpretElements use elements = .ok others →
          some (.rest rest argument) ∈ others →
            ∃ argument', (element :: elements).getLast? = some (some (.spread rest argument')) := by
        intro others run member
        rcases induction run member with ⟨argument', last⟩
        exact ⟨argument', by rw [List.getLast?_cons, last, Option.getD_some]⟩
      cases element with
      | none =>
          rw [reinterpretElements] at run
          rcases except_bind_ok run with ⟨others, run', final⟩
          cases final
          rcases List.mem_cons.mp member with wrong | member
          · cases wrong
          · exact later others run' member
      | some item =>
          cases item with
          | spread loc argument' =>
              rw [reinterpretElements] at run
              have checks := rest_run (fun _ wrong => by cases wrong) run
              rcases checks with ⟨isLast, -, pattern, -, final⟩
              cases final
              cases List.mem_singleton.mp member
              have nothing : elements = [] := by simpa using isLast
              exact ⟨argument', by rw [nothing, List.getLast?_singleton]⟩
          | _ =>
              rw [reinterpretElements] at run
              · rcases except_bind_ok run with ⟨pattern, first, run⟩
                rcases except_bind_ok run with ⟨others, run', final⟩
                cases final
                rcases List.mem_cons.mp member with equal | member
                · cases equal
                  exact absurd rfl (reinterpret_kind first).1
                · exact later others run' member
              · simp

theorem spread_of_reinterpretProperties {use : PatternUse} {properties : List Property}
    {patterns : List PatternProperty} (run : reinterpretProperties use properties = .ok patterns)
    {rest : Span} {argument : Pattern} (member : .rest rest argument ∈ patterns) :
    ∃ argument', properties.getLast? = some (.spread rest argument') := by
  induction properties generalizing patterns with
  | nil =>
      cases run
      cases member
  | cons property properties induction =>
      cases property with
      | spread loc argument' =>
          rw [reinterpretProperties.eq_def] at run
          dsimp only at run
          split at run
          · cases run
          · next isLast =>
              have nothing : properties = [] := by simpa using isLast
              split at run
              · cases run
                cases List.mem_singleton.mp member
                exact ⟨_, by rw [nothing, List.getLast?_singleton]⟩
              · cases run
      | field loc key value shorthand =>
          rw [reinterpretProperties] at run
          rcases except_bind_ok run with ⟨pattern, -, run⟩
          rcases except_bind_ok run with ⟨others, run', final⟩
          cases final
          rcases List.mem_cons.mp member with wrong | member
          · cases wrong
          · rcases induction run' member with ⟨argument', last⟩
            exact ⟨argument', by rw [List.getLast?_cons, last, Option.getD_some]⟩

theorem spread_of_reinterpretItems {items : List Expr} {params : List Pattern}
    (run : reinterpretItems items = .ok params) {rest : Span} {argument : Pattern}
    (member : .rest rest argument ∈ params) : ∃ argument', .spread rest argument' ∈ items := by
  induction items generalizing params with
  | nil =>
      cases run
      cases member
  | cons item items induction =>
      cases item with
      | spread loc argument' =>
          rw [reinterpretItems] at run
          rcases rest_run (fun _ wrong => by cases wrong) run with ⟨-, -, pattern, -, final⟩
          cases final
          cases List.mem_singleton.mp member
          exact ⟨argument', List.mem_cons_self ..⟩
      | _ =>
          rw [reinterpretItems] at run
          · rcases except_bind_ok run with ⟨pattern, first, run⟩
            rcases except_bind_ok run with ⟨others, run', final⟩
            cases final
            rcases List.mem_cons.mp member with equal | member
            · cases equal
              exact absurd rfl (reinterpret_kind first).1
            · rcases induction run' member with ⟨argument', member⟩
              exact ⟨argument', List.mem_cons_of_mem _ member⟩
          · simp

/-! ## Patterns without noted commas -/

theorem elementsRestComma?_none {patterns : List (Option Pattern)}
    (noComma : elementsRestComma? commas patterns = none) {pattern : Pattern}
    (member : some pattern ∈ patterns) : pattern.restComma? commas = none := by
  induction patterns with
  | nil => cases member
  | cons first patterns induction =>
      cases first with
      | none =>
          rcases List.mem_cons.mp member with wrong | member
          · cases wrong
          · exact induction noComma member
      | some first =>
          rw [elementsRestComma?, Option.or_eq_none_iff] at noComma
          rcases List.mem_cons.mp member with equal | member
          · cases equal
            exact noComma.1
          · exact induction noComma.2 member

theorem Pattern.not_mem_of_restComma? {rest : Span} {argument : Pattern}
    (noComma : (Pattern.rest rest argument).restComma? commas = none) :
    argument.restComma? commas = none ∧ ∀ comma, (rest.start, comma) ∉ commas := by
  rw [Pattern.restComma?] at noComma
  split at noComma
  · cases noComma
  · next notFound =>
      refine ⟨noComma, ?_⟩
      intro comma member
      exact List.find?_eq_none.mp notFound _ member (beq_self_eq_true _)

theorem checkRestCommas_none {params : List Pattern}
    (run : params.forM (checkRestCommas commas) = .ok ()) :
    ∀ param ∈ params, param.restComma? commas = none := by
  induction params with
  | nil => exact nofun
  | cons param params induction =>
      rcases except_bind_ok run with ⟨_, first, run⟩
      refine List.forall_mem_cons.mpr ⟨?_, induction run⟩
      unfold checkRestCommas at first
      split at first
      · cases first
      · assumption

mutual

/-- An expression that is rebuilt as a pattern, and none of its rests has been noted. -/
theorem reinterpret_noted (use : PatternUse) : ∀ (expr : Expr) (pattern : Pattern),
    expr.Everywhere (noted source commas) → reinterpret use expr = .ok pattern →
      pattern.restComma? commas = none → pattern.Everywhere (noted source commas)
  | .ident id, pattern, _, run, _ => by
      rw [reinterpret] at run
      cases run
      exact ⟨trivial, trivial⟩
  | .array loc elements, pattern, ⟨last, inside⟩, run, noComma => by
      rw [reinterpret] at run
      rcases except_bind_ok run with ⟨patterns, run', final⟩
      cases final
      refine ⟨?_, reinterpretElements_noted use elements patterns inside run' noComma⟩
      intro rest argument member
      have notNoted := Pattern.not_mem_of_restComma? (elementsRestComma?_none noComma member)
      rcases spread_of_reinterpretElements run' member with ⟨argument', isLast⟩
      rcases last rest argument' isLast with closed | ⟨comma, noted⟩
      · exact closed
      · exact absurd noted (notNoted.2 comma)
  | .object loc properties, pattern, ⟨last, inside⟩, run, noComma => by
      rw [reinterpret] at run
      rcases except_bind_ok run with ⟨patterns, run', final⟩
      cases final
      refine ⟨?_, reinterpretProperties_noted use properties patterns inside run' noComma⟩
      intro rest argument member
      rcases spread_of_reinterpretProperties run' member with ⟨argument', isLast⟩
      exact last rest argument' isLast
  | .assign loc .plain target value, pattern, ⟨_, inside⟩, run, noComma => by
      rw [reinterpret] at run
      rcases except_bind_ok run with ⟨inner, run', final⟩
      cases final
      exact ⟨trivial, reinterpret_noted use target inner inside.1 run' noComma, inside.2⟩
  | .destructure loc .plain inner value, pattern, ⟨_, inside⟩, run, _ => by
      cases run
      exact ⟨trivial, inside⟩
  | .assign _ (.arithmetic _) _ _, _, _, run, _ | .assign _ (.logical _) _ _, _, _, run, _
  | .destructure _ (.arithmetic _) _ _, _, _, run, _
  | .destructure _ (.logical _) _ _, _, _, run, _
  | .null _, _, _, run, _ | .boolean _ _, _, _, run, _ | .number _, _, _, run, _
  | .string _, _, _, run, _ | .regExp _ _ _, _, _, run, _ | .template _ _ _, _, _, run, _
  | .this _, _, _, run, _ | .paren _ _, _, _, run, _ | .arrow _ _ _, _, _, run, _
  | .unary _ _ _, _, _, run, _ | .update _ _ _ _, _, _, run, _ | .binary _ _ _ _, _, _, run, _
  | .logical _ _ _ _, _, _, run, _ | .conditional _ _ _ _, _, _, run, _
  | .sequence _ _, _, _, run, _ | .member _ _ _ _, _, _, run, _ | .call _ _ _ _, _, _, run, _
  | .new _ _ _, _, _, run, _ | .tagged _ _ _ _ _, _, _, run, _ | .spread _ _, _, _, run, _ => by
      cases run

theorem reinterpretElements_noted (use : PatternUse) :
    ∀ (elements : List (Option Expr)) (patterns : List (Option Pattern)),
      elementsInside (noted source commas) elements →
        reinterpretElements use elements = .ok patterns →
          elementsRestComma? commas patterns = none →
            patternElementsInside (noted source commas) patterns
  | [], _, _, run, _ => by
      cases run
      trivial
  | none :: elements, patterns, inside, run, noComma => by
      rw [reinterpretElements] at run
      rcases except_bind_ok run with ⟨others, run', final⟩
      cases final
      exact reinterpretElements_noted use elements others inside run' noComma
  | some element :: elements, patterns, ⟨first, inside⟩, run, noComma => by
      have later := reinterpretElements_noted use elements
      have whole := reinterpret_noted use element
      cases element with
      | spread loc argument =>
          have inner := reinterpret_noted use argument
          rw [reinterpretElements] at run
          rcases rest_run (fun _ wrong => by cases wrong) run with ⟨-, -, pattern, run', final⟩
          cases final
          rw [elementsRestComma?, Option.or_eq_none_iff] at noComma
          have argumentNone := (Pattern.not_mem_of_restComma? noComma.1).1
          exact ⟨⟨trivial, inner pattern first.2 run' argumentNone⟩, trivial⟩
      | _ =>
          rw [reinterpretElements] at run
          · rcases except_bind_ok run with ⟨pattern, run', run⟩
            rcases except_bind_ok run with ⟨others, run'', final⟩
            cases final
            rw [elementsRestComma?, Option.or_eq_none_iff] at noComma
            exact ⟨whole pattern first run' noComma.1, later others inside run'' noComma.2⟩
          · simp

theorem reinterpretProperties_noted (use : PatternUse) :
    ∀ (properties : List Property) (patterns : List PatternProperty),
      propertiesInside (noted source commas) properties →
        reinterpretProperties use properties = .ok patterns →
          propertiesRestComma? commas patterns = none →
            patternPropertiesInside (noted source commas) patterns
  | [], _, _, run, _ => by
      cases run
      trivial
  | .spread loc argument :: properties, patterns, _, run, noComma => by
      rw [reinterpretProperties.eq_def] at run
      dsimp only at run
      split at run
      · cases run
      · split at run
        · cases run
          exact ⟨⟨trivial, trivial⟩, trivial⟩
        · cases run
  | .field loc key value shorthand :: properties, patterns, ⟨first, inside⟩, run, noComma => by
      rw [reinterpretProperties] at run
      rcases except_bind_ok run with ⟨pattern, run', run⟩
      rcases except_bind_ok run with ⟨others, run'', final⟩
      cases final
      rw [propertiesRestComma?, Option.or_eq_none_iff] at noComma
      exact ⟨⟨first.1, reinterpret_noted use value pattern first.2 run' noComma.1⟩,
        reinterpretProperties_noted use properties others inside run'' noComma.2⟩

end

theorem reinterpretItems_noted {items : List Expr} {params : List Pattern}
    (inside : itemsInside (noted source commas) items)
    (run : reinterpretItems items = .ok params)
    (noComma : ∀ param ∈ params, param.restComma? commas = none) :
    patternsInside (noted source commas) params := by
  induction items generalizing params with
  | nil =>
      cases run
      trivial
  | cons item items induction =>
      rcases inside with ⟨first, inside⟩
      cases item with
      | spread loc argument =>
          rw [reinterpretItems] at run
          rcases rest_run (fun _ wrong => by cases wrong) run with ⟨-, -, pattern, run', final⟩
          cases final
          have argumentNone := (Pattern.not_mem_of_restComma? (noComma _ (List.mem_cons_self ..))).1
          exact ⟨⟨trivial, reinterpret_noted _ argument pattern first.2 run' argumentNone⟩, trivial⟩
      | _ =>
          rw [reinterpretItems] at run
          · rcases except_bind_ok run with ⟨pattern, run', run⟩
            rcases except_bind_ok run with ⟨others, run'', final⟩
            cases final
            rcases List.forall_mem_cons.mp noComma with ⟨noComma, later⟩
            exact ⟨reinterpret_noted _ _ pattern first run' noComma, induction inside run'' later⟩
          · simp

end ExprScript
