import ExprScript.Grammar.Literal
import ExprScript.Proofs.Token.Scanning
import ExprScript.Proofs.Tree.WellFormed

/-! # Trees that the grammar builds

Beside its shape, a node of a parsed tree has names, numbers and pieces of text
that come from tokens. An expression that was read for a pattern keeps both when
it is rebuilt as one.
-/

namespace ExprScript

/-! ## The words of a node -/

def Ident.Read (id : Ident) : Prop :=
  ∃ token : Token, token.Occurs ∧ token.kind = .identifier ∧ id.name = token.text

def Ident.ReadAsKey (id : Ident) : Prop :=
  ∃ token : Token, token.Occurs ∧ token.isName = true ∧ id.name = token.text

def NumberLiteral.Read (literal : NumberLiteral) : Prop :=
  ∃ token : Token, token.Occurs ∧ token.kind = .numericLiteral ∧
    token.payload = .number literal.value

def Quasi.Read (quasi : Quasi) : Prop :=
  ∃ token : Token, token.Occurs ∧ token.kind.isTemplate = true ∧
    token.payload = .template quasi.cooked quasi.raw

def RegExpRead (pattern flags : String) : Prop :=
  ∃ (before after after' : Scanner) (slash token : Token), before.Placed ∧
    Scanner.next before = .ok slash after ∧
    (slash.kind = .punctuator .slash ∨ slash.kind = .punctuator .slashEqual) ∧
    Scanner.rescanRegExp slash after = .ok token after' ∧
    token.payload = .regExp pattern flags ∧ Parse.validRegExpFlags flags.toList = true

def PropertyKey.Lexical : PropertyKey → Prop
  | .name id => id.ReadAsKey
  | .number literal => literal.Read
  | .string _ | .computed _ => True

def Property.Lexical : Property → Prop
  | .field _ key _ _ => key.Lexical
  | .spread _ _ => True

def MemberKey.Lexical : MemberKey → Prop
  | .name id => id.ReadAsKey
  | .computed _ => True

/-- Whether an object literal or an object pattern stands at the very start, with no parenthesis
before it. Sequences are left out: they stand in parentheses. -/
def Expr.opensBrace : Expr → Bool
  | .object _ _ => true
  | .destructure _ _ (.object _ _) _ => true
  | .update _ _ .after argument => argument.opensBrace
  | .binary _ _ left _ | .logical _ _ left _ => left.opensBrace
  | .conditional _ test _ _ => test.opensBrace
  | .assign _ _ target _ => target.opensBrace
  | .member _ owner _ _ => owner.opensBrace
  | .call _ callee _ _ => callee.opensBrace
  | .tagged _ tag _ _ _ => tag.opensBrace
  | _ => false

/-- The words of an expression, those of its parts aside, were tokens. The token behind an arrow
was no brace. -/
def Expr.Lexical : Expr → Prop
  | .number literal => literal.Read
  | .regExp _ pattern flags => RegExpRead pattern flags
  | .template _ quasis _ => ∀ quasi ∈ quasis, quasi.Read
  | .tagged _ _ _ quasis _ => ∀ quasi ∈ quasis, quasi.Read
  | .ident id => id.Read
  | .object _ properties => ∀ property ∈ properties, property.Lexical
  | .member _ _ key _ => key.Lexical
  | .arrow _ _ body => body.opensBrace = false
  | _ => True

def PatternProperty.Lexical : PatternProperty → Prop
  | .field _ key _ _ => key.Lexical
  | .rest _ _ => True

def Pattern.Lexical : Pattern → Prop
  | .ident id => id.Read
  | .object _ properties => ∀ property ∈ properties, property.Lexical
  | _ => True

def grammatical : Condition where
  expr expr := expr.Shape ∧ expr.Lexical
  pattern pattern := pattern.Shape ∧ pattern.Lexical

abbrev Expr.Grammatical (expr : Expr) : Prop := expr.Everywhere grammatical

abbrev Pattern.Grammatical (pattern : Pattern) : Prop := pattern.Everywhere grammatical

/-! ## Expressions as patterns -/

def Expr.AsPattern (expr : Expr) : Prop :=
  ∀ use pattern, reinterpret use expr = .ok pattern → pattern.Grammatical

def Expr.AsElement : Expr → Prop
  | .spread _ argument => argument.AsPattern
  | expr => expr.AsPattern

def Property.AsPattern : Property → Prop
  | .field _ key value shorthand =>
    (key.Shape ∧ key.Lexical ∧ key.Inside grammatical) ∧ value.AsPattern ∧
      (shorthand = true → ∃ id, key = .name id ∧
        (value = .ident id ∨ ∃ loc fallback, value = .assign loc .plain (.ident id) fallback))
  | .spread _ argument => argument.AsPattern

theorem except_bind_ok {ε α β : Type} {first : Except ε α} {next : α → Except ε β} {result : β}
    (run : (first >>= next) = .ok result) :
    ∃ value, first = .ok value ∧ next value = .ok result := by
  cases first with
  | error error => cases run
  | ok value => exact ⟨value, rfl, run⟩

theorem Expr.asPattern_of_refused {expr : Expr}
    (refused : ∀ use, reinterpret use expr = use.refuse expr) : expr.AsPattern := by
  intro use pattern run
  rw [refused use] at run
  cases run

/-- A pattern that an expression is rebuilt as is no rest, and it has a default
only if the expression is an assignment. -/
theorem reinterpret_kind {use : PatternUse} {expr : Expr} {pattern : Pattern}
    (run : reinterpret use expr = .ok pattern) :
    pattern.kind ≠ .restElement ∧ (expr.isAssignment = false → pattern.isTarget = true) := by
  cases expr with
  | ident id =>
      rw [reinterpret] at run
      cases run
      exact ⟨by rintro ⟨⟩, fun _ => rfl⟩
  | array loc elements =>
      rw [reinterpret] at run
      obtain ⟨patterns, -, run⟩ := except_bind_ok run
      cases run
      exact ⟨by rintro ⟨⟩, fun _ => rfl⟩
  | object loc properties =>
      rw [reinterpret] at run
      obtain ⟨patterns, -, run⟩ := except_bind_ok run
      cases run
      exact ⟨by rintro ⟨⟩, fun _ => rfl⟩
  | assign loc op target value =>
      cases op with
      | plain =>
          rw [reinterpret] at run
          obtain ⟨patterns, -, run⟩ := except_bind_ok run
          cases run
          exact ⟨by rintro ⟨⟩, by rintro ⟨⟩⟩
      | _ => cases run
  | destructure loc op inner value =>
      cases op with
      | plain =>
          cases run
          exact ⟨by rintro ⟨⟩, by rintro ⟨⟩⟩
      | _ => cases run
  | _ => cases run

theorem Expr.asPattern_ident {id : Ident} (read : id.Read) : (Expr.ident id).AsPattern := by
  intro use pattern run
  rw [reinterpret] at run
  cases run
  exact ⟨⟨trivial, read⟩, trivial⟩

theorem rest_grammatical {argument : Expr} {use : PatternUse} {loc : Span} {pattern : Pattern}
    (asPattern : argument.AsPattern) (notAssignment : argument.isAssignment = false)
    (run : reinterpret use argument = .ok pattern) : (Pattern.rest loc pattern).Grammatical :=
  ⟨⟨(reinterpret_kind run).2 notAssignment, trivial⟩, asPattern use pattern run⟩

theorem mem_dropLast_cons {α : Type} {item first : α} {rest : List α}
    (member : item ∈ (first :: rest).dropLast) : item = first ∨ item ∈ rest.dropLast := by
  cases rest with
  | nil => cases member
  | cons second rest => exact List.mem_cons.mp member

/-- The checks before a spread becomes a rest. -/
theorem rest_run {α : Type} {use : PatternUse} {argument : Expr} {notLast : Bool}
    {refused : Except Error Unit} (fails : ∀ value, refused ≠ .ok value)
    {next : Pattern → Except Error α} {result : α}
    (run : (do
      if notLast then refused
      if argument.isAssignment then use.refuse argument
      next (← reinterpret use argument)) = .ok result) :
    notLast = false ∧ argument.isAssignment = false ∧
      ∃ pattern, reinterpret use argument = .ok pattern ∧ next pattern = .ok result := by
  cases notLast with
  | true =>
      obtain ⟨value, wrong, -⟩ := except_bind_ok run
      exact absurd wrong (fails value)
  | false =>
      cases assignment : argument.isAssignment with
      | true =>
          rw [assignment] at run
          cases run
      | false =>
          rw [assignment] at run
          exact ⟨rfl, rfl, except_bind_ok run⟩

theorem reinterpretElements_grammatical {use : PatternUse} {elements : List (Option Expr)}
    (items : ∀ item, some item ∈ elements → item.AsElement) {patterns : List (Option Pattern)}
    (run : reinterpretElements use elements = .ok patterns) :
    patternElementsInside grammatical patterns ∧
      ∀ pattern, some pattern ∈ patterns.dropLast → pattern.kind ≠ .restElement := by
  induction elements generalizing patterns with
  | nil =>
      rw [reinterpretElements] at run
      cases run
      exact ⟨trivial, by simp⟩
  | cons element elements induction =>
      have later := fun patterns => @induction
        (fun item member => items item (List.mem_cons_of_mem _ member)) patterns
      cases element with
      | none =>
          rw [reinterpretElements] at run
          obtain ⟨others, rest, run⟩ := except_bind_ok run
          cases run
          obtain ⟨inside, shape⟩ := later others rest
          refine ⟨inside, fun pattern member => ?_⟩
          obtain wrong | member := mem_dropLast_cons member
          · cases wrong
          · exact shape pattern member
      | some item =>
          have whole := items item (List.mem_cons_self ..)
          have other : ∀ pattern others, item.AsPattern → reinterpret use item = .ok pattern →
              reinterpretElements use elements = .ok others →
              patternElementsInside grammatical (some pattern :: others) ∧
                ∀ pattern', some pattern' ∈ (some pattern :: others).dropLast →
                  pattern'.kind ≠ .restElement := by
            intro pattern others asPattern first rest
            obtain ⟨inside, shape⟩ := later others rest
            refine ⟨⟨asPattern use pattern first, inside⟩, fun pattern' member => ?_⟩
            obtain equal | member := mem_dropLast_cons member
            · cases equal
              exact (reinterpret_kind first).1
            · exact shape pattern' member
          cases item with
          | spread loc argument =>
              rw [reinterpretElements] at run
              obtain ⟨-, notAssignment, pattern, first, run⟩ := rest_run (fun _ wrong => by cases wrong) run
              cases run
              exact ⟨⟨rest_grammatical whole notAssignment first, trivial⟩, by simp⟩
          | _ =>
              rw [reinterpretElements] at run
              · obtain ⟨pattern, first, run⟩ := except_bind_ok run
                obtain ⟨others, rest, run⟩ := except_bind_ok run
                cases run
                exact other pattern others whole first rest
              · simp

theorem Expr.asPattern_array {loc : Span} {elements : List (Option Expr)}
    (items : ∀ item, some item ∈ elements → item.AsElement) :
    (Expr.array loc elements).AsPattern := by
  intro use pattern run
  rw [reinterpret] at run
  obtain ⟨patterns, rebuilt, final⟩ := except_bind_ok run
  cases final
  obtain ⟨inside, shape⟩ := reinterpretElements_grammatical items rebuilt
  exact ⟨⟨shape, trivial⟩, inside⟩

theorem reinterpretProperties_grammatical {use : PatternUse} {properties : List Property}
    (parts : ∀ property ∈ properties, property.AsPattern) {patterns : List PatternProperty}
    (run : reinterpretProperties use properties = .ok patterns) :
    patternPropertiesInside grammatical patterns ∧
      (∀ property ∈ patterns, property.Shape ∧ property.Lexical) ∧
      ∀ loc argument, PatternProperty.rest loc argument ∉ patterns.dropLast := by
  induction properties generalizing patterns with
  | nil =>
      rw [reinterpretProperties] at run
      cases run
      exact ⟨trivial, by simp, by simp⟩
  | cons property properties induction =>
      have whole := parts property (List.mem_cons_self ..)
      have later := fun patterns => @induction
        (fun property member => parts property (List.mem_cons_of_mem _ member)) patterns
      cases property with
      | spread loc argument =>
          cases argument with
          | ident id =>
              rw [reinterpretProperties] at run
              cases noOthers : !properties.isEmpty with
              | true =>
                  rw [noOthers] at run
                  cases run
              | false =>
                  rw [noOthers] at run
                  cases run
                  have grammatical := whole use _ (by rw [reinterpret])
                  refine ⟨⟨grammatical, trivial⟩, ?_, by simp⟩
                  intro property member
                  cases List.mem_singleton.mp member
                  exact ⟨⟨id, rfl⟩, trivial⟩
          | _ =>
              rw [reinterpretProperties] at run
              · split at run <;> cases run
              · simp
      | field loc key value shorthand =>
          obtain ⟨⟨keyShape, keyLexical, keyInside⟩, asPattern, isShort⟩ := whole
          rw [reinterpretProperties] at run
          obtain ⟨pattern, first, run⟩ := except_bind_ok run
          obtain ⟨others, rest, run⟩ := except_bind_ok run
          cases run
          obtain ⟨inside, shapes, last⟩ := later others rest
          have shape : PatternProperty.Shape (.field loc key pattern shorthand) := by
            refine ⟨keyShape, (reinterpret_kind first).1, fun short => ?_⟩
            obtain ⟨id, named, rfl | ⟨assignLoc, fallback, rfl⟩⟩ := isShort short
            · rw [reinterpret] at first
              cases first
              exact ⟨id, named, .inl rfl⟩
            · rw [reinterpret, reinterpret] at first
              cases first
              exact ⟨id, named, .inr ⟨_, _, rfl⟩⟩
          refine ⟨⟨⟨keyInside, asPattern use pattern first⟩, inside⟩, ?_, ?_⟩
          · intro property member
            obtain rfl | member := List.mem_cons.mp member
            · exact ⟨shape, keyLexical⟩
            · exact shapes property member
          · intro restLoc argument member
            obtain wrong | member := mem_dropLast_cons member
            · cases wrong
            · exact last restLoc argument member

theorem Expr.asPattern_object {loc : Span} {properties : List Property}
    (parts : ∀ property ∈ properties, property.AsPattern) :
    (Expr.object loc properties).AsPattern := by
  intro use pattern run
  rw [reinterpret] at run
  obtain ⟨patterns, rebuilt, final⟩ := except_bind_ok run
  cases final
  obtain ⟨inside, shapes, last⟩ := reinterpretProperties_grammatical parts rebuilt
  exact ⟨⟨⟨fun property member => (shapes property member).1, last⟩,
    fun property member => (shapes property member).2⟩, inside⟩

theorem Expr.asPattern_assign {loc : Span} {op : AssignOp} {target value : Expr}
    (simple : target.isSimpleTarget = true) (asPattern : target.AsPattern)
    (operand : value.Operand Precedence.assignment) (grammatical : value.Grammatical) :
    (Expr.assign loc op target value).AsPattern := by
  intro use pattern run
  cases op with
  | plain =>
      rw [reinterpret] at run
      obtain ⟨inner, first, final⟩ := except_bind_ok run
      cases final
      have notAssignment : target.isAssignment = false := by
        cases target with
        | assign => cases simple
        | destructure => cases simple
        | _ => rfl
      exact ⟨⟨⟨(reinterpret_kind first).2 notAssignment, operand⟩, trivial⟩,
        asPattern use inner first, grammatical⟩
  | arithmetic op => cases run
  | logical op => cases run

theorem Expr.asPattern_destructure {loc : Span} {op : AssignOp} {pattern : Pattern} {value : Expr}
    (composite : pattern.isComposite = true) (inner : pattern.Grammatical)
    (operand : value.Operand Precedence.assignment) (grammatical : value.Grammatical) :
    (Expr.destructure loc op pattern value).AsPattern := by
  intro use result run
  have isTarget : pattern.isTarget = true := by
    cases pattern with
    | array => rfl
    | object => rfl
    | _ => cases composite
  cases op with
  | plain =>
      cases run
      exact ⟨⟨⟨isTarget, operand⟩, trivial⟩, inner, grammatical⟩
  | _ => cases run

theorem reinterpretItems_grammatical {items : List Expr} (parts : ∀ item ∈ items, item.AsElement)
    {params : List Pattern} (run : reinterpretItems items = .ok params) :
    patternsInside grammatical params ∧
      ∀ param ∈ params.dropLast, param.kind ≠ .restElement := by
  induction items generalizing params with
  | nil =>
      rw [reinterpretItems] at run
      cases run
      exact ⟨trivial, by simp⟩
  | cons item items induction =>
      have whole := parts item (List.mem_cons_self ..)
      have later := fun params => @induction
        (fun item member => parts item (List.mem_cons_of_mem _ member)) params
      have other : ∀ param others, item.AsPattern → reinterpret .parameter item = .ok param →
          reinterpretItems items = .ok others →
          patternsInside grammatical (param :: others) ∧
            ∀ param' ∈ (param :: others).dropLast, param'.kind ≠ .restElement := by
        intro param others asPattern first rest
        obtain ⟨inside, shape⟩ := later others rest
        refine ⟨⟨asPattern _ param first, inside⟩, fun param' member => ?_⟩
        obtain rfl | member := mem_dropLast_cons member
        · exact (reinterpret_kind first).1
        · exact shape param' member
      cases item with
      | spread loc argument =>
          rw [reinterpretItems] at run
          obtain ⟨-, notAssignment, pattern, first, run⟩ :=
            rest_run (fun _ wrong => by cases wrong) run
          cases run
          exact ⟨⟨rest_grammatical whole notAssignment first, trivial⟩, by simp⟩
      | _ =>
          rw [reinterpretItems] at run
          · obtain ⟨param, first, run⟩ := except_bind_ok run
            obtain ⟨others, rest, run⟩ := except_bind_ok run
            cases run
            exact other param others whole first rest
          · simp

theorem reinterpretParameters_grammatical {items : List Expr}
    (parts : ∀ item ∈ items, item.AsElement) {params : List Pattern}
    (run : reinterpretParameters items = .ok params) :
    patternsInside grammatical params ∧ ParametersShape params := by
  obtain ⟨found, rebuilt, run⟩ := except_bind_ok run
  obtain ⟨_, distinct, run⟩ := except_bind_ok run
  cases run
  obtain ⟨inside, shape⟩ := reinterpretItems_grammatical parts rebuilt
  exact ⟨inside, shape, distinct⟩

end ExprScript
