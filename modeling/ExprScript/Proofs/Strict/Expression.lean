import ExprScript.Grammar.Expression
import ExprScript.Proofs.Grammar.Chain
import ExprScript.Proofs.Strict.Literal

/-! # Strict mode only filters

The rules of the grammar from arrow functions up to whole texts. A text that strict
mode accepts is parsed to the same tree without it, and a text that is parsed without
it is refused in strict mode exactly for the first token that strict mode refuses.
-/

namespace ExprScript

namespace Parse

open ParserState

variable {text : List Char}

/-! ## Regular expressions -/

theorem regExpLiteral_blind : Blind regExpLiteral := by
  refine .bind .lookahead fun slash => .bind (.scan _) fun token => .bind (.modify fun _ => rfl)
    fun _ => .bind .advance fun token => ?_
  split
  · exact .bind (.ofExcept _) fun _ => .pure _
  · exact .throw _

theorem regExpLiteral_filters (before : ParserState)
    (notEnd : before.lookahead.kind ≠ .endOfInput) :
    Filters text regExpLiteral before fun expr leaves => expr.leaves = [] ++ leaves := by
  refine regExpLiteral_blind.filters fun inside => ?_
  rcases inside.read with ⟨earlier, placed, run⟩
  refine lookahead_bind (.bind ((scan_ensures _ before).mono fun token middle result => .modify ?_))
  rcases result with ⟨rescan, same⟩
  rcases rescanRegExp_ensures _ _ _ _ rescan with ⟨leads, -⟩
  have placed' : middle.scanner.Placed := (Scanner.placed_cursorAt placed run notEnd).of_leads leads
  have loose : middle.strict = false := by
    rw [same]
    exact inside.loose
  have advances : Ensures advance { middle with lookahead := token } fun used after =>
      used = token ∧ after.Within text :=
    advance_within placed' (leads.source.trans inside.source) loose
  refine .bind (advances.mono fun used after result => ?_)
  split
  · exact ofExcept_bind fun _ _ => .pure ⟨result.2, rfl⟩
  · exact .throw _

section

variable {rules : Rules} (parts : ∀ rule, Filtered text [] Expr.leaves (rules rule))

include parts

/-! ## Arrow functions -/

theorem arrow_filtered (start : Position) (items : List Expr) :
    Filtered text (itemsLeaves items) Expr.leaves (arrow rules start items) := by
  refine .ofExcept fun params rebuilt => .get (fun _ => rfl) fun state => .ofExcept fun _ _ => ?_
  refine .modify (fun _ => rfl) (fun _ inside => ⟨inside.read, inside.source, inside.loose⟩) ?_
  rw [← reinterpretParameters_leaves rebuilt]
  have body : Filtered text (patternsLeaves params) Expr.leaves (do
      let body ← isolate (rules .assignment)
      return .arrow (← spanFrom start) params body) :=
    .bind (parts .assignment).isolate fun _ => .silent (spanFrom_silent _) fun _ => .pure rfl
  have unbraced : Filtered text (patternsLeaves params) Expr.leaves (do
      if ← at? .leftBrace then fail .arrowBlockBody (← Parse.start)
      let body ← isolate (rules .assignment)
      return .arrow (← spanFrom start) params body) :=
    .silent (at?_silent _) fun _ => .ite
      (.silent start_silent fun _ => .silent (.fail _ _) fun _ => body) body
  exact .silent (expect_silent _) fun _ => .ite (.silent (.throw _) fun _ => unbraced) unbraced

def GroupItems.leaves (group : GroupItems) : List Leaf := itemsLeaves group.items

theorem groupItems_filtered : Filtered text [] GroupItems.leaves (groupItems rules) := by
  refine .loop collectedItems GroupItems.leaves (fun reversed => ?_) []
  refine .silent (at?_silent _) fun _ => .ite ?_ ?_
  · refine .bind (spread_filtered (parts .assignment).inherit) fun item => ?_
    have last : Filtered text (collectedItems reversed ++ item.leaves)
        (roundLeaves collectedItems GroupItems.leaves)
        (return .done { items := (item :: reversed).reverse, parametersOnly := true }) :=
      .pure (collectedItems_cons item reversed)
    refine .silent (at?_silent _) fun _ => .ite ?_ last
    exact .silent start_silent fun _ => .silent (.fail _ _) fun _ => last
  · refine .bind (parts .assignment).inherit fun item => .silent (eat?_silent _) fun _ => .ite ?_ ?_
    · exact .pure (collectedItems_cons item reversed)
    · refine .silent (at?_silent _) fun _ => .ite ?_ ?_
      · exact .pure (collectedItems_cons item reversed)
      · exact .pure (collectedItems_cons item reversed)

omit parts in
theorem leaves_groupBody (start : Position) (items : List Expr) :
    (groupBody start items).leaves = itemsLeaves items := by
  unfold groupBody
  split
  · simp only [itemsLeaves, List.append_nil]
  · rfl

theorem groupOrArrow_filtered : Filtered text [] Expr.leaves (groupOrArrow rules) := by
  refine .silent start_silent fun start => .get (fun _ => rfl) fun state => ?_
  refine .silent (expect_silent _) fun _ => .silent (at?_silent _) fun _ => .ite ?_ ?_
  · refine .silent advance_silent fun close => ?_
    have none : Filtered text [] Expr.leaves (arrow rules start []) := arrow_filtered parts start []
    exact .silent (at?_silent _) fun _ => .ite (.silent (.throw _) fun _ => none) none
  · refine .extend (groupItems_filtered parts) fun group => .silent (expect_silent _) fun close => ?_
    have whole : Filtered text group.leaves Expr.leaves (do
        return .paren (← spanFrom start) (groupBody start group.items)) :=
      .silent (spanFrom_silent _) fun _ => .pure (leaves_groupBody start group.items)
    refine .silent (at?_silent _) fun _ => .ite (arrow_filtered parts start group.items) ?_
    exact .ite (.throw _) whole

theorem nameOrArrow_filtered : Filtered text [] Expr.leaves (nameOrArrow rules) := by
  have isName : Filtered text [] Expr.leaves (do return Expr.ident (← bindingName)) :=
    .extend bindingName_filtered fun _ => .pure rfl
  refine .silent start_silent fun start => .get (fun _ => rfl) fun state => .ite ?_ isName
  refine .silent secondKind_silent fun _ => .ite ?_ isName
  exact .extend bindingName_filtered fun id => arrow_filtered parts start [.ident id]

/-! ## Chains -/

theorem templateLiteral_filtered : Filtered text [] Expr.leaves (templateLiteral rules) :=
  .extend (template_filtered parts) fun _ => .pure rfl

theorem primary_filtered : Filtered text [] Expr.leaves (primary rules) := by
  have word : ∀ build : Span → Expr, (∀ loc, (build loc).leaves = []) →
      Filtered text [] Expr.leaves (do return build (← advance).span) :=
    fun build nothing => .silent advance_silent fun token => .pure (nothing token.span)
  intro before
  refine .get rfl ?_
  split
  · exact nameOrArrow_filtered parts before
  · next isNumber =>
      refine .bind (numberLiteral_filters before isNumber) fun literal leaves middle found => ?_
      exact .pure (by simpa [Expr.leaves] using found)
  · exact Filtered.extend stringLiteral_filtered (fun _ => .pure rfl) before
  · exact word (.boolean · true) (fun _ => rfl) before
  · exact word (.boolean · false) (fun _ => rfl) before
  · exact word .null (fun _ => rfl) before
  · exact word .this (fun _ => rfl) before
  · exact templateLiteral_filtered parts before
  · exact templateLiteral_filtered parts before
  · exact arrayLiteral_filtered parts before
  · exact objectLiteral_filtered parts before
  · exact groupOrArrow_filtered parts before
  · next isSlash => exact regExpLiteral_filters before (by simp [isSlash])
  · next isSlash => exact regExpLiteral_filters before (by simp [isSlash])
  · exact unexpected_filtered before

theorem taggedTemplate_filtered (start : Position) (tag : Expr) :
    Filtered text tag.leaves Expr.leaves (taggedTemplate rules start tag) :=
  .bind (template_filtered parts) fun _ => .silent (spanFrom_silent _) fun _ => .pure rfl

omit parts in
theorem namedMember_filtered (start : Position) (owner : Expr) (optional : Bool) :
    Filtered text owner.leaves Expr.leaves (namedMember start owner optional) :=
  .silent propertyName_silent fun _ => .silent (spanFrom_silent _) fun _ =>
    .pure (List.append_nil _)

theorem bracketMember_filtered (start : Position) (owner : Expr) (optional : Bool) :
    Filtered text owner.leaves Expr.leaves (bracketMember rules start owner optional) :=
  .bind (computedMember_filtered parts) fun _ => .silent (spanFrom_silent _) fun _ => .pure rfl

theorem callWith_filtered (start : Position) (callee : Expr) (optional : Bool) :
    Filtered text callee.leaves Expr.leaves (callWith rules start callee optional) :=
  .bind (arguments_filtered parts) fun _ => .silent (spanFrom_silent _) fun _ => .pure rfl

theorem optionalLink_filtered (start : Position) (owner : Expr) :
    Filtered text owner.leaves Expr.leaves (optionalLink rules start owner) := by
  refine .silent kind_silent fun kind => ?_
  split
  · exact callWith_filtered parts start owner true
  · exact bracketMember_filtered parts start owner true
  · have named : Filtered text owner.leaves Expr.leaves (namedMember start owner true) :=
      namedMember_filtered start owner true
    exact .ite (.silent start_silent fun _ => .silent (.fail _ _) fun _ => named) named

/-- The members and templates that follow what is constructed. -/
theorem constructorLinks_filtered (first : Expr) : Filtered text first.leaves Expr.leaves
    (loop (fun callee => do
      match ← kind with
      | .punctuator .dot =>
        let _ ← advance
        return .again (← namedMember first.loc.start callee false)
      | .punctuator .leftBracket =>
        return .again (← bracketMember rules first.loc.start callee false)
      | .noSubstitutionTemplate | .templateHead =>
        return .again (← taggedTemplate rules first.loc.start callee)
      | .punctuator .questionDot => fail .optionalChainFromNew (← Parse.start)
      | _ => return .done callee) first) := by
  refine .loop Expr.leaves Expr.leaves (fun callee => .silent kind_silent fun kind => ?_) first
  split
  · refine .silent advance_silent fun _ => ?_
    exact .extend (namedMember_filtered _ callee false) fun _ => .pure rfl
  · exact .extend (bracketMember_filtered parts _ callee false) fun _ => .pure rfl
  · exact .extend (taggedTemplate_filtered parts _ callee) fun _ => .pure rfl
  · exact .extend (taggedTemplate_filtered parts _ callee) fun _ => .pure rfl
  · exact .silent start_silent fun _ => .fail _ _
  · exact .pure rfl

theorem constructor_filtered : Filtered text [] Expr.leaves (constructor rules) := by
  refine .silent kind_silent fun _ => .ite ?_ ?_
  · exact .extend (parts .construction) (constructorLinks_filtered parts)
  · exact .extend (primary_filtered parts) (constructorLinks_filtered parts)

theorem construction_filtered : Filtered text [] Expr.leaves (construction rules) := by
  have called : ∀ start, Filtered text [] Expr.leaves (do
      let callee ← constructor rules
      let args ← if ← at? .leftParen then arguments rules else pure []
      return .new (← spanFrom start) callee args) := by
    intro start
    refine .extend (constructor_filtered parts) fun callee => .silent (at?_silent _) fun _ => .ite ?_ ?_
    · exact .bind (arguments_filtered parts) fun _ => .silent (spanFrom_silent _) fun _ => .pure rfl
    · rw [pure_bind]
      exact .silent (spanFrom_silent _) fun _ => .pure (List.append_nil _)
  refine .silent start_silent fun start => .silent advance_silent fun _ => ?_
  refine .silent (at?_silent _) fun _ => .ite (.silent unexpected_filtered fun _ => ?_) ?_
  · exact called start
  · exact called start

theorem links_filtered (start : Position) (first : Expr) :
    Filtered text first.leaves Expr.leaves (links rules start first) := by
  refine .loop (fun state : Expr × Bool => state.1.leaves) Expr.leaves (fun state => ?_)
    (first, false)
  rcases state with ⟨expr, afterOptional⟩
  have tagged : Filtered text expr.leaves
      (roundLeaves (fun state : Expr × Bool => state.1.leaves) Expr.leaves) (do
        if afterOptional then fail .taggedOptionalChain (← Parse.start)
        return .again (← taggedTemplate rules start expr, afterOptional)) := by
    have added : Filtered text expr.leaves
        (roundLeaves (fun state : Expr × Bool => state.1.leaves) Expr.leaves) (do
          return .again (← taggedTemplate rules start expr, afterOptional)) :=
      .extend (taggedTemplate_filtered parts start expr) fun _ => .pure rfl
    exact .ite (.silent start_silent fun _ => .silent (.fail _ _) fun _ => added) added
  refine .silent kind_silent fun kind => ?_
  split
  · refine .silent advance_silent fun _ => ?_
    exact .extend (namedMember_filtered start expr false) fun _ => .pure rfl
  · exact .extend (bracketMember_filtered parts start expr false) fun _ => .pure rfl
  · exact .extend (callWith_filtered parts start expr false) fun _ => .pure rfl
  · refine .silent advance_silent fun _ => ?_
    exact .extend (optionalLink_filtered parts start expr) fun _ => .pure rfl
  · exact tagged
  · exact tagged
  · exact .pure rfl

theorem linksUnlessArrow_filtered (start : Position) (first : Expr) :
    Filtered text first.leaves Expr.leaves
      (match first with
      | .arrow .. => pure first
      | _ => links rules start first) := by
  split
  · exact .pure rfl
  · exact links_filtered parts start first

theorem chain_filtered : Filtered text [] Expr.leaves (chain rules) := by
  refine .silent start_silent fun start => .silent kind_silent fun _ => .ite ?_ ?_
  · exact .extend (construction_filtered parts) (linksUnlessArrow_filtered parts start)
  · exact .extend (primary_filtered parts) (linksUnlessArrow_filtered parts start)

/-! ## Operators -/

theorem postfixed_filtered : Filtered text [] Expr.leaves (postfixed rules) := by
  refine .silent start_silent fun start => .extend (chain_filtered parts).inherit fun expr => ?_
  refine .silent lookahead_silent fun token => ?_
  split
  · exact .pure rfl
  · next op _ =>
      have updated : Filtered text expr.leaves Expr.leaves (do
          let _ ← advance
          return .update (← spanFrom start) op .after expr) :=
        .silent advance_silent fun _ => .silent (spanFrom_silent _) fun _ => .pure rfl
      exact .ite (.pure rfl) (.ite (.silent (.fail _ _) fun _ => updated) updated)

theorem unary_filtered : Filtered text [] Expr.leaves (unary rules) := by
  refine .silent start_silent fun start => .silent kind_silent fun kind => ?_
  split
  · refine .silent advance_silent fun _ => .extend (parts .unary).isolate fun _ => ?_
    exact .silent (spanFrom_silent _) fun _ => .pure rfl
  · next op _ _ =>
      refine .silent advance_silent fun _ => .extend (parts .unary).isolate fun argument => ?_
      have updated : Filtered text argument.leaves Expr.leaves (do
          return .update (← spanFrom start) op .before argument) :=
        .silent (spanFrom_silent _) fun _ => .pure rfl
      exact .ite (.silent (.fail _ _) fun _ => updated) updated
  · exact postfixed_filtered parts

theorem exponent_filtered : Filtered text [] Expr.leaves (exponent rules) := by
  refine .extend (unary_filtered parts).inherit fun base => ?_
  refine .silent (at?_silent _) fun _ => .ite (.pure rfl) ?_
  have powered : Filtered text base.leaves Expr.leaves (do
      let _ ← advance
      let power ← isolate (rules .exponent)
      return .binary (base.loc.join power.loc) (.arithmetic .exp) base power) :=
    .silent advance_silent fun _ => .bind (parts .exponent).isolate fun _ => .pure rfl
  exact .ite (.silent start_silent fun _ => .silent (.fail _ _) fun _ => powered) powered

/-- Operands are taken in from left to right, each one after an operator. -/
theorem climb_filtered (first : Expr) (before : ParserState) :
    Filters text (loop (fun (climb : Climb) => do
        let kind ← kind
        if binaryPrecedence kind = 0 then return .done climb
        let pending := { kind, precedence := binaryPrecedence kind, position := ← start }
        let climb ← ofExcept (climb.shift pending)
        let _ ← advance
        let operand ← isolate (exponent rules)
        return .again (climb.push operand)) { operands := [first] }) before
      fun climb leaves => collectedItems climb.operands = first.leaves ++ leaves ∧
        climb.Balanced := by
  refine .ensuring ?_ ?_
  · have only : collectedItems [first] = first.leaves := by
      rw [collectedItems_cons]
      rfl
    rw [← only]
    refine Filtered.loop (fun climb : Climb => collectedItems climb.operands)
      (fun climb : Climb => collectedItems climb.operands) (fun climb => ?_) { operands := [first] }
      before
    refine .silent kind_silent fun kind => ?_
    split
    · exact .pure rfl
    · refine .silent start_silent fun _ => .ofExcept fun shifted run => ?_
      refine .silent advance_silent fun _ => .bind (exponent_filtered parts).isolate fun operand => ?_
      exact .pure (Climb.leaves_shift run operand)
  · refine loop_ensures (fun climb _ => climb.Balanced) (fun climb state balanced => ?_) rfl
    refine kind_bind ?_
    split
    · exact .pure balanced
    · refine start_bind (ofExcept_bind fun shifted run => ?_)
      refine .bindAny fun _ _ => .bindAny fun operand _ => .pure ?_
      exact balanced.shift run operand

theorem binary_filtered : Filtered text [] Expr.leaves (binary rules) := by
  refine .extend (exponent_filtered parts).inherit fun first before => ?_
  refine .bind (climb_filtered parts first before) fun climb leaves middle found => ?_
  rcases found with ⟨found, balanced⟩
  refine .get rfl (.ofExcept fun result run => ?_)
  rw [List.append_nil, Climb.leaves_finish balanced run]
  exact found

theorem conditional_filtered : Filtered text [] Expr.leaves (conditional rules) := by
  refine .silent start_silent fun start => .extend (binary_filtered parts).inherit fun test => ?_
  refine .silent (at?_silent _) fun _ => .ite (.pure rfl) (.silent advance_silent fun _ => ?_)
  refine .bind (parts .assignment).isolate fun consequent => .silent (expect_silent _) fun _ => ?_
  refine .bind (parts .assignment).isolate fun alternate => ?_
  exact .silent (spanFrom_silent _) fun _ => .pure rfl

/-! ## Assignments -/

theorem assignedValue_filtered : Filtered text [] Expr.leaves (assignedValue rules) :=
  .silent advance_silent fun _ => (parts .assignment).isolate

theorem destructuring_filtered (start : Position) (op : AssignOp) (literal : Expr) :
    Filtered text literal.leaves Expr.leaves (destructuring rules start op literal) := by
  refine .ofExcept fun pattern rebuilt => .get (fun _ => rfl) fun state => .ofExcept fun _ _ => ?_
  refine .modify (fun _ => rfl) (fun _ inside => ⟨inside.read, inside.source, inside.loose⟩) ?_
  rw [← reinterpret_leaves .assignment literal pattern rebuilt]
  refine .bind (assignedValue_filtered parts) fun value => ?_
  exact .silent (spanFrom_silent _) fun _ => .pure rfl

theorem assignmentTail_filtered (start : Position) (expr : Expr) :
    Filtered text expr.leaves Expr.leaves (assignmentTail rules start expr) := by
  refine .ite (.pure rfl) (.silent kind_silent fun kind => ?_)
  split
  · exact .pure rfl
  · refine .ite (destructuring_filtered parts start _ expr) (.ite ?_ (.fail _ _))
    refine .bind (assignedValue_filtered parts) fun value => ?_
    exact .silent (spanFrom_silent _) fun _ => .pure rfl

theorem assignment_filtered : Filtered text [] Expr.leaves (assignment rules) := by
  refine .silent start_silent fun start => .get (fun _ => rfl) fun state => ?_
  refine .modify (fun _ => rfl) (fun _ inside => ⟨inside.read, inside.source, inside.loose⟩) ?_
  refine .extend (conditional_filtered parts).inherit fun expr => ?_
  refine .extend (assignmentTail_filtered parts start expr) fun result => ?_
  exact .modify (fun _ => rfl) (fun _ inside => ⟨inside.read, inside.source, inside.loose⟩)
    (.pure rfl)

end

theorem rules_filtered (depth : Nat) (rule : Rule) : Filtered text [] Expr.leaves (rules depth rule) := by
  induction depth generalizing rule with
  | zero => exact .silent start_silent fun _ => .fail _ _
  | succ depth induction =>
      cases rule with
      | assignment => exact assignment_filtered induction
      | exponent => exact exponent_filtered induction
      | unary => exact unary_filtered induction
      | construction => exact construction_filtered induction

theorem program_filtered (depth : Nat) : Filtered text [] Expr.leaves (program depth) := by
  refine .extend (expression_filtered (rules_filtered depth)) fun expr => ?_
  refine .silent kind_silent fun _ => .ite (.silent unexpected_filtered fun _ => ?_) (.pure rfl)
  exact .pure rfl

end Parse

/-- Both runs of the parser on a whole text. -/
theorem parse_filters (source : String) :
    match parse source with
    | .ok expr => parse source true =
        match expr.leaves.findSome? (Leaf.offence? source.toList) with
        | none => .ok expr
        | some error => .error error
    | .error _ => ∀ expr, parse source true ≠ .ok expr := by
  cases run : Scanner.next (Scanner.ofString source) with
  | error error scanner =>
      rw [parse_of_next_error false run, parse_of_next_error true run]
      intro expr wrong
      cases wrong
  | ok lookahead scanner =>
      let loose : ParserState :=
        { scanner, lookahead, previousEnd := lookahead.span.start, strict := false }
      have inside : loose.Within source.toList :=
        ⟨⟨_, Scanner.placed_ofString source, run⟩,
          (Scanner.next_ensures _ _ _ run).1.source, rfl⟩
      have filters := Parse.program_filtered (source.length + 1) loose inside
      cases program : Parse.program (source.length + 1) loose with
      | error error after =>
          rw [program] at filters
          rw [parse_of_program_error run program]
          intro expr parsed
          cases strict : Parse.program (source.length + 1) loose.strictly with
          | ok result last => exact filters _ _ strict
          | error error last =>
              rw [parse_of_program_error run strict] at parsed
              cases parsed
      | ok expr after =>
          rw [program] at filters
          rw [parse_of_program run program]
          rcases filters with ⟨-, leaves, found, strict⟩
          rw [List.nil_append] at found
          rw [← found] at strict
          dsimp only
          cases offence : expr.leaves.findSome? (Leaf.offence? source.toList) with
          | none =>
              rw [offence] at strict
              exact parse_of_program run strict
          | some error =>
              rw [offence] at strict
              rcases strict with ⟨last, strict⟩
              exact parse_of_program_error run strict

/-- A text that strict mode accepts is parsed to the same tree without it. A text that
is parsed without it is refused in strict mode for the first token that strict mode
refuses, and accepted if there is none. -/
theorem parse_strict (source : String) :
    (∀ expr, parse source true = .ok expr → parse source = .ok expr) ∧
      ∀ expr, parse source = .ok expr → parse source true =
        match expr.leaves.findSome? (Leaf.offence? source.toList) with
        | none => .ok expr
        | some error => .error error := by
  have filters := parse_filters source
  constructor
  · intro expr strict
    split at filters
    · next loose parsed =>
        rw [strict] at filters
        split at filters
        · rw [parsed, Except.ok.inj filters]
        · cases filters
    · exact absurd strict (filters expr)
  · intro expr parsed
    rw [parsed] at filters
    exact filters

/-- The name of a property may be reserved, the name of a variable may not. -/
theorem parse_strict_reserved : ∃ expr, parse "a.let + { static: 1, yield }.let" = .ok expr ∧
    parse "a.let + { static: 1, yield }.let" true = .error
      { cause := .strictReservedWord, position := { offset := 21, line := 1, column := 22 } } := by
  have refused : (parse "a.let + { static: 1, yield }.let").toOption.map (fun expr =>
      expr.leaves.findSome? (Leaf.offence? "a.let + { static: 1, yield }.let".toList)) =
      some (some
        { cause := .strictReservedWord
          position := { offset := 21, line := 1, column := 22 } }) := by
    decide +kernel
  cases parsed : parse "a.let + { static: 1, yield }.let" with
  | error error =>
      rw [parsed] at refused
      cases refused
  | ok expr =>
      rw [parsed] at refused
      have offence : expr.leaves.findSome? _ = _ := Option.some.inj refused
      have strict := (parse_strict _).2 expr parsed
      rw [offence] at strict
      exact ⟨expr, rfl, strict⟩

end ExprScript
