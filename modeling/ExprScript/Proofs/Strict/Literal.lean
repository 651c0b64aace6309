import ExprScript.Grammar.Literal
import ExprScript.Proofs.Strict.Filter

/-! # Strict mode in names and literals

The three rules that look at strict mode are those of names, strings and numbers. All
other rules of the grammar pass on what their parts have used.
-/

namespace ExprScript.Parse

open ParserState

variable {text : List Char} {before : ParserState}

/-! ## Tokens that strict mode looks at -/

/-- The check of a token that was used. -/
theorem refuse_filters {α : Type} {post : α → List Leaf → Prop} (test : Bool → Bool)
    (loose : test false = false) {cause : Cause} {position : Position} {result : α} {leaf : Leaf}
    (offence : leaf.offence? text = if test true then some { cause, position } else none)
    (holds : post result [leaf]) :
    Filters text (do
      if test (← get).strict then fail cause position
      return result) before post := by
  intro inside
  have run : ∀ state : ParserState, (do
      if test (← get).strict then fail cause position
      return result : Parse α) state =
        if test state.strict then .error { cause, position } state else .ok result state := by
    intro state
    change (if test state.strict then _ else _ : Parse α) state = _
    split <;> rfl
  rw [run, run, inside.loose, loose]
  refine ⟨inside, [leaf], holds, ?_⟩
  rw [List.findSome?_singleton, offence]
  have isStrict : before.strictly.strict = true := rfl
  rw [isStrict]
  cases test true with
  | false => rfl
  | true => exact ⟨_, rfl⟩

theorem bindingName_filtered : Filtered text [] (fun id => [.name id]) bindingName := by
  have named : ∀ (token : Token) (middle : ParserState), Filters text (do
      if (← get).strict && strictReservedWords.contains token.text then
        fail .strictReservedWord token.span.start
      return ({ loc := token.span, name := token.text } : Ident)) middle
      fun id leaves => [Leaf.name id] = [] ++ leaves := by
    intro token middle
    exact refuse_filters (fun strict => strict && strictReservedWords.contains token.text) rfl
      rfl rfl
  refine .silent kind_silent fun _ => .ite (.silent unexpected_filtered fun _ => ?_) ?_
  · exact .silent advance_silent fun token => named token
  · exact .silent advance_silent fun token => named token

/-- A string or a number: the token is used, and its mark is checked after that. -/
theorem marked_filters {α : Type} {leavesOf : α → List Leaf} (cause : Token → Cause)
    (build : Token → α) {leaf : Leaf} (before : ParserState)
    (literal : before.lookahead.kind = .stringLiteral ∨ before.lookahead.kind = .numericLiteral)
    (offence : leaf.offence? text =
      if Leaf.isMarked text before.lookahead.span.start then
        some { cause := cause before.lookahead, position := before.lookahead.span.start }
      else none)
    (single : leavesOf (build before.lookahead) = [leaf]) :
    Filters text (do
      let token ← advance
      if token.octal && (← get).strict then fail (cause token) token.span.start
      return build token) before fun result leaves => leavesOf result = [] ++ leaves := by
  refine .given fun inside => ?_
  have uses : Filters text advance before fun token leaves =>
      token = before.lookahead ∧ leaves = [] :=
    Blind.advance.filters fun inside =>
      (advance_within inside.placed inside.source inside.loose).mono fun _ _ holds =>
        ⟨holds.2, holds.1, rfl⟩
  refine .bind uses fun token leaves middle found => ?_
  rcases found with ⟨rfl, rfl⟩
  refine refuse_filters (fun strict => before.lookahead.octal && strict) (Bool.and_false _) ?_
    single
  rw [Bool.and_true, offence, inside.isMarked literal]

theorem stringLiteral_filtered : Filtered text [] (fun literal => [.string literal]) stringLiteral := by
  intro before
  refine .get rfl ?_
  dsimp only
  split
  · exact fun _ _ _ run => nomatch run
  · next isString =>
      exact marked_filters (fun _ => .octalEscape)
        (fun token => ({ loc := token.span, value := token.text } : StringLiteral)) before
        (.inl (by simpa using isString)) rfl rfl

theorem numberLiteral_filters (before : ParserState)
    (isNumber : before.lookahead.kind = .numericLiteral) :
    Filters text numberLiteral before fun literal leaves =>
      [Leaf.number literal] = [] ++ leaves :=
  marked_filters _ _ before (.inr isNumber) rfl rfl

theorem propertyName_silent : Silent text propertyName := by
  refine .silent lookahead_silent fun _ => .ite (.silent unexpected_filtered fun _ => ?_) ?_
  · exact .silent advance_silent fun _ => .pure rfl
  · exact .silent advance_silent fun _ => .pure rfl

/-! ## Literals with parts of their own -/

section

variable {rules : Rules} (parts : ∀ rule, Filtered text [] Expr.leaves (rules rule))

include parts

theorem expression_filtered : Filtered text [] Expr.leaves (expression rules) := by
  refine .silent start_silent fun _ => .extend (parts .assignment).isolate fun first => ?_
  refine .silent (at?_silent _) fun _ => .ite (.pure rfl) ?_
  have single : first.leaves = collectedItems [first] := (collectedItems_cons first []).symm
  rw [single]
  refine .extend (.loop collectedItems collectedItems (fun reversed => ?_) [first]) fun reversed =>
    .silent (spanFrom_silent _) fun _ => .pure rfl
  refine .silent (eat?_silent _) fun _ => .ite ?_ (.pure rfl)
  refine .bind (parts .assignment).isolate fun item => .pure ?_
  exact collectedItems_cons item reversed

theorem computedMember_filtered : Filtered text [] MemberKey.leaves (computedMember rules) := by
  refine .silent (expect_silent _) fun _ => .extend (expression_filtered parts).isolate fun key => ?_
  exact .silent (expect_silent _) fun _ => .pure rfl

omit parts in
theorem spread_filtered {wrap : Parse Expr → Parse Expr}
    (argument : Filtered text [] Expr.leaves (wrap (rules .assignment))) :
    Filtered text [] Expr.leaves (spread rules wrap) := by
  refine .silent start_silent fun _ => .silent advance_silent fun _ => .extend argument fun _ => ?_
  exact .silent (spanFrom_silent _) fun _ => .pure rfl

theorem arguments_filtered : Filtered text [] itemsLeaves (arguments rules) := by
  refine .silent (expect_silent _) fun _ => ?_
  refine .extend (.loop collectedItems collectedItems (fun reversed => ?_) []) fun reversed =>
    .silent (expect_silent _) fun _ => .pure rfl
  have collect : ∀ argument : Expr, Filtered text (collectedItems reversed ++ argument.leaves)
      (roundLeaves collectedItems collectedItems) (do
        if !(← at? .rightParen) then
          let _ ← expect .comma
        return .again (argument :: reversed)) :=
    fun argument => comma_filtered (.pure (collectedItems_cons argument reversed))
  refine .silent (at?_silent _) fun _ => .ite (.pure rfl) (.silent (at?_silent _) fun _ => .ite ?_ ?_)
  · exact .bind (spread_filtered (parts .assignment).isolate) collect
  · exact .bind (parts .assignment).isolate collect

/-- The tokens in the holes of a template. -/
def TemplateParts.leaves (template : TemplateParts) : List Leaf := itemsLeaves template.holes

theorem template_filtered : Filtered text [] TemplateParts.leaves (template rules) := by
  refine .silent start_silent fun _ => .silent advance_silent fun head => ?_
  refine .extend (.loop (fun state : Token × List Quasi × List Expr => collectedItems state.2.2)
    (fun result : List Quasi × List Expr => collectedItems result.2) (fun state => ?_) _)
    fun result => .silent (spanFrom_silent _) fun _ => .pure rfl
  rcases state with ⟨token, quasis, holes⟩
  refine .ite (.pure rfl) (.bind (expression_filtered parts) fun hole => ?_)
  have collect : Filtered text (collectedItems holes ++ hole.leaves)
      (roundLeaves (fun state : Token × List Quasi × List Expr => collectedItems state.2.2)
        fun result : List Quasi × List Expr => collectedItems result.2) (do
        let next ← advance
        return .again (next, quasiOf next :: quasis, hole :: holes)) :=
    .silent advance_silent fun _ => .pure (collectedItems_cons hole holes)
  exact .silent kind_silent fun _ => .ite (.silent unexpected_filtered fun _ => collect) collect

omit parts in
theorem noteTrailingComma_silent (element : Expr) (comma : Token) :
    Silent text (noteTrailingComma element comma) := by
  unfold noteTrailingComma
  split
  · refine .silent (at?_silent _) fun _ => .ite ?_ (.pure rfl)
    exact modify_silent (fun _ => rfl) fun _ inside => ⟨inside.read, inside.source, inside.loose⟩
  · exact .pure rfl

theorem arrayLiteral_filtered : Filtered text [] Expr.leaves (arrayLiteral rules) := by
  refine .silent start_silent fun _ => .silent (expect_silent _) fun _ => ?_
  refine .extend (.loop collectedElements collectedElements (fun reversed => ?_) []) fun reversed =>
    .silent (expect_silent _) fun _ => .silent (spanFrom_silent _) fun _ => .pure rfl
  refine .silent (at?_silent _) fun _ => .ite (.pure rfl) (.silent (eat?_silent _) fun _ => .ite ?_ ?_)
  · exact .pure (collectedElements_none reversed)
  · have collect : ∀ element : Expr, Filtered text (collectedElements reversed ++ element.leaves)
        (roundLeaves collectedElements collectedElements) (do
          if !(← at? .rightBracket) then
            let comma ← expect .comma
            noteTrailingComma element comma
          return .again (some element :: reversed)) := by
      intro element
      have again : Filtered text (collectedElements reversed ++ element.leaves)
          (roundLeaves collectedElements collectedElements)
          (return .again (some element :: reversed)) :=
        .pure (collectedElements_some element reversed)
      refine .silent (at?_silent _) fun _ => .ite ?_ again
      exact .silent (expect_silent _) fun comma =>
        .silent (noteTrailingComma_silent element comma) fun _ => again
    refine .silent (at?_silent _) fun _ => .ite ?_ ?_
    · exact .bind (spread_filtered (parts .assignment).inherit) collect
    · exact .bind (parts .assignment).inherit collect

theorem shorthandProperty_filtered (start : Position) :
    Filtered text [] Property.leaves (shorthandProperty rules start) := by
  refine .extend bindingName_filtered fun id => .silent (at?_silent _) fun _ => .ite ?_ ?_
  · have value : Filtered text [Leaf.name id] Property.leaves (do
        let value ← isolate (rules .assignment)
        let loc ← spanFrom start
        return .field loc (.name id) (.assign loc .plain (.ident id) value) true) :=
      .bind (parts .assignment).isolate fun _ => .silent (spanFrom_silent _) fun _ => .pure rfl
    refine .silent advance_silent fun equal => .get (fun _ => rfl) fun state => .ite ?_ value
    exact .modify (fun _ => rfl) (fun _ inside => ⟨inside.read, inside.source, inside.loose⟩) value
  · exact .silent (spanFrom_silent _) fun _ => .pure rfl

omit parts in
theorem isShorthand_silent : Silent text isShorthand := by
  refine .silent kind_silent fun _ => .ite (.pure rfl) ?_
  exact .silent secondKind_silent fun _ => .pure rfl

theorem propertyKey_filtered : Filtered text [] PropertyKey.leaves (propertyKey rules) := by
  have named : Filtered text [] PropertyKey.leaves (do return .name (← propertyName)) :=
    .silent propertyName_silent fun _ => .pure rfl
  intro before
  refine .get rfl ?_
  split
  · refine Filtered.silent advance_silent (fun _ => ?_) before
    exact .extend (parts .assignment).isolate fun _ => .silent (expect_silent _) fun _ => .pure rfl
  · exact Filtered.extend stringLiteral_filtered (fun _ => .pure rfl) before
  · next isNumber =>
      refine .bind (numberLiteral_filters before isNumber) fun literal leaves middle found => ?_
      exact .pure (by simpa [PropertyKey.leaves] using found)
  · exact named before

theorem property_filtered : Filtered text [] Property.leaves (property rules) := by
  refine .silent start_silent fun start => .silent (at?_silent _) fun _ => .ite ?_ ?_
  · refine .silent advance_silent fun _ => .extend (parts .assignment).inherit fun _ => ?_
    exact .silent (spanFrom_silent _) fun _ => .pure rfl
  · refine .silent isShorthand_silent fun _ => .ite (shorthandProperty_filtered parts start) ?_
    refine .extend (propertyKey_filtered parts) fun key => .silent (expect_silent _) fun _ => ?_
    refine .bind (parts .assignment).inherit fun _ => ?_
    exact .silent (spanFrom_silent _) fun _ => .pure rfl

theorem objectLiteral_filtered : Filtered text [] Expr.leaves (objectLiteral rules) := by
  refine .silent start_silent fun _ => .silent (expect_silent _) fun _ => ?_
  refine .extend (.loop collectedProperties collectedProperties (fun reversed => ?_) [])
    fun reversed =>
      .silent (expect_silent _) fun _ => .silent (spanFrom_silent _) fun _ => .pure rfl
  refine .silent (at?_silent _) fun _ => .ite (.pure rfl) ?_
  refine .bind (property_filtered parts) fun property => comma_filtered (.pure ?_)
  exact collectedProperties_cons property reversed

end

end ExprScript.Parse
