import ExprScript.Grammar.Chain
import ExprScript.Proofs.Grammar.Object

/-! # Primary expressions and chains are grammatical

An arrow function ends where an assignment expression does. Every other primary
expression may start a chain and may be constructed.
-/

namespace ExprScript

open ParserState

/-- An expression that is no pattern is covered as soon as it is grammatical
without a pending initializer. -/
theorem Expr.Cover.of_refused {pending : Option Position} {expr : Expr}
    (whole : pending = none → expr.Grammatical)
    (refused : ∀ use, reinterpret use expr = use.refuse expr) : expr.Cover pending :=
  ⟨whole, Expr.asPattern_of_refused refused⟩

structure Expr.Atom (expr : Expr) : Prop where
  operand : expr.Operand Precedence.primary
  constructs : expr.constructs = true
  notOptional : expr.isOptionalChain = false

def Expr.Primary (atStart : Prop) (next : Token) (expr : Expr) : Prop :=
  expr.Atom ∨ expr.kind = .arrowFunctionExpression ∧ atStart ∧ next.kind.Closes

namespace Parse

def PrimaryRead (before : ParserState) (expr : Expr) (after : ParserState) : Prop :=
  before.Moves after ∧ expr.Cover after.pendingInitializer ∧
    expr.Primary (before.offset = before.assignmentStart) after.lookahead

variable {rules : Rules} {before : ParserState}

/-! ## Parentheses and arrow functions -/

theorem arrow_ensures (hold : RulesHold rules) (sound : before.Sound) (start : Position)
    {items : List Expr} (parts : ∀ item ∈ items, item.AsElement) :
    Ensures (arrow rules start items) before fun expr after => before.Moves after ∧
      expr.Grammatical ∧ expr.kind = .arrowFunctionExpression ∧ after.lookahead.kind.Closes := by
  refine ofExcept_bind fun params rebuilt => .get (ofExcept_bind fun _ _ => .modify ?_)
  rcases reinterpretParameters_grammatical parts rebuilt with ⟨inside, shape⟩
  let cleared : ParserState := { before with pendingInitializer := none }
  have clears : before.Moves cleared := ⟨⟨sound.read, sound.begun⟩, Nat.le_refl _, rfl⟩
  refine .bind ((expect_ensures .arrow clears.sound).mono fun sign opened result => ?_)
  rcases result with ⟨-, -, opens, -⟩
  refine .ite (fun _ => .bind (.throw _)) fun _ => ?_
  refine at?_bind (.ite (fun _ => start_bind (.bind (fail_ensures _ _))) fun noBrace => ?_)
  refine .bind (((hold.isolated opens.sound).both (hold.brace.isolated opened)).mono
    fun body after result => ?_)
  rcases result with ⟨⟨passes, grammatical, operand, closes⟩, brace⟩
  have apart : body.opensBrace = false :=
    Bool.eq_false_iff.mpr fun opensBrace => noBrace (beq_iff_eq.mpr (brace opensBrace))
  refine spanFrom_bind fun loc => .pure ⟨?_, ⟨⟨⟨shape, operand⟩, apart⟩, ?_⟩, rfl, closes⟩
  · exact clears.trans (opens.toMoves.trans passes.toMoves)
  · exact ⟨inside, grammatical⟩

/-- Without a rest and without a last comma, the items are those of a sequence. -/
theorem groupItems_ensures (hold : RulesHold rules) (sound : before.Sound) :
    Ensures (groupItems rules) before fun group after => before.Moves after ∧
      group.items ≠ [] ∧
      (∀ item ∈ group.items, item.ElementCover after.pendingInitializer) ∧
      (group.parametersOnly = false →
        ∀ item ∈ group.items, item.Operand Precedence.assignment) := by
  refine loop_ensures (fun (reversed : List Expr) state => before.Moves state ∧
    ∀ item ∈ reversed, item.ElementCover state.pendingInitializer ∧
      item.Operand Precedence.assignment) ?_ ⟨.refl sound, by simp⟩
  rintro reversed state ⟨moves, items⟩
  have earlier : ∀ pending item, item ∈ reversed →
      item.ElementCover (state.pendingInitializer.or pending) := by
    intro pending item member
    exact (items item member).1.later fun isNone => (Option.or_eq_none_iff.mp isNone).1
  refine at?_bind (.ite (fun _ => ?_) fun _ => ?_)
  · refine .bind ((spread_inherit_ensures hold moves.sound).mono fun last after result => ?_)
    rcases result with ⟨moves', pending, passed, cover⟩
    refine at?_bind (.ite (fun _ => start_bind (.bind (fail_ensures _ _))) fun _ => .pure ?_)
    refine ⟨moves.trans moves', by simp, fun item member => ?_, nofun⟩
    rw [passed]
    rcases List.mem_cons.mp (List.mem_reverse.mp member) with rfl | member
    · exact cover.later fun isNone => (Option.or_eq_none_iff.mp isNone).2
    · exact earlier pending item member
  · refine .bind ((hold.inherited moves.sound).mono fun item middle result => ?_)
    rcases result with ⟨moves', pending, passed, cover, operand⟩
    have items' : ∀ other ∈ item :: reversed,
        other.ElementCover middle.pendingInitializer ∧ other.Operand Precedence.assignment := by
      intro other member
      rw [passed]
      rcases List.mem_cons.mp member with rfl | member
      · refine ⟨⟨fun isNone => cover.whole (Option.or_eq_none_iff.mp isNone).2, ?_, ?_⟩, operand⟩
        · exact asElement_of_asPattern operand.notSpread cover.asPattern
        · exact operand.fits
      · exact ⟨earlier pending other member, (items other member).2⟩
    refine .bind ((eat?_ensures .comma moves'.sound).mono fun eaten after result => ?_)
    rcases result with ⟨eats, -, -⟩
    have items'' : ∀ other ∈ item :: reversed,
        other.ElementCover after.pendingInitializer ∧ other.Operand Precedence.assignment := by
      rwa [eats.pending]
    have moves'' := moves.trans (moves'.trans eats.toMoves)
    have whole : (item :: reversed).reverse ≠ [] := by simp
    refine .ite (fun _ => .pure ⟨moves'', whole, ?_, ?_⟩) fun _ => ?_
    · exact fun other member => (items'' other (List.mem_reverse.mp member)).1
    · exact fun _ other member => (items'' other (List.mem_reverse.mp member)).2
    refine at?_bind (.ite (fun _ => .pure ⟨moves'', whole, ?_, nofun⟩) fun _ => .pure ?_)
    · exact fun other member => (items'' other (List.mem_reverse.mp member)).1
    · exact ⟨moves'', items''⟩

theorem groupBody_grammatical (start : Position) {items : List Expr} (some : items ≠ [])
    (grammatical : ∀ item ∈ items, item.Grammatical)
    (operands : ∀ item ∈ items, item.Operand Precedence.assignment) :
    (groupBody start items).Grammatical ∧
      (groupBody start items).Operand Precedence.sequence := by
  match items, some with
  | [item], _ =>
      have member := List.mem_singleton_self item
      exact ⟨grammatical item member, (operands item member).mono (by decide)⟩
  | first :: second :: others, _ =>
      refine ⟨⟨⟨⟨by simp, operands⟩, trivial⟩, ?_⟩, rfl, .inl (Nat.le_refl _)⟩
      exact (itemsInside_iff _ _).mpr grammatical

theorem groupOrArrow_ensures (hold : RulesHold rules) (sound : before.Sound) :
    Ensures (groupOrArrow rules) before (PrimaryRead before) := by
  refine start_bind (.get ?_)
  dsimp only
  refine .bind ((expect_ensures .leftParen sound).mono fun _ opened ⟨_, _, opens, _⟩ => ?_)
  -- An arrow follows the parentheses only where one may start.
  have isArrow : ∀ items state, opened.Moves state →
      (before.lookahead.span.start.offset == before.assignmentStart) = true →
      (∀ item ∈ items, item.AsElement) →
      Ensures (arrow rules before.lookahead.span.start items) state (PrimaryRead before) := by
    intro items state moves atStart parts
    refine (arrow_ensures hold moves.sound _ parts).mono fun expr after result => ?_
    rcases result with ⟨moves', grammatical, kind, closes⟩
    refine ⟨opens.toMoves.trans (moves.trans moves'), .of_refused (fun _ => grammatical) ?_, ?_⟩
    · cases expr with
      | arrow => intro use; rfl
      | _ => cases kind
    · exact .inr ⟨kind, eq_of_beq atStart, closes⟩
  refine at?_bind (.ite (fun _ => ?_) fun _ => ?_)
  · refine .bind ((advance_ensures opens.sound).mono fun close middle ⟨_, closes, _⟩ => ?_)
    refine at?_bind (.ite (fun _ => .bind (.throw _)) fun follows => ?_)
    simp only [Bool.or_eq_true, not_or, Bool.not_eq_true', Bool.not_eq_false] at follows
    exact isArrow [] middle closes.toMoves follows.1 (by simp)
  · refine .bind ((groupItems_ensures hold opens.sound).mono fun group inside result => ?_)
    rcases result with ⟨moves, some, covers, operands⟩
    refine .bind ((expect_ensures .rightParen moves.sound).mono fun close after result => ?_)
    rcases result with ⟨-, -, closes, -⟩
    refine at?_bind (.ite (fun follows => ?_) fun _ => .ite (fun _ => .throw _) fun isGroup => ?_)
    · rw [Bool.and_eq_true] at follows
      exact isArrow group.items after (moves.trans closes.toMoves) follows.1
        fun item member => (covers item member).asElement
    · refine spanFrom_bind fun loc => .pure
        ⟨opens.toMoves.trans (moves.trans closes.toMoves), .of_refused ?_ fun _ => rfl, .inl ?_⟩
      · intro isNone
        rw [closes.pending] at isNone
        rcases groupBody_grammatical before.lookahead.span.start some
          (fun item member => (covers item member).whole isNone)
          (operands (Bool.eq_false_iff.mpr isGroup)) with ⟨grammatical, operand⟩
        exact ⟨⟨operand, trivial⟩, grammatical⟩
      · exact ⟨⟨rfl, .inl (Nat.le_refl _)⟩, rfl, rfl⟩

theorem nameOrArrow_ensures (hold : RulesHold rules) (sound : before.Sound) :
    Ensures (nameOrArrow rules) before (PrimaryRead before) := by
  have isName : Ensures (do return Expr.ident (← bindingName)) before (PrimaryRead before) := by
    refine .bind ((bindingName_ensures sound).mono fun id after ⟨passes, read, _⟩ => .pure ?_)
    refine ⟨passes.toMoves, ⟨fun _ => ⟨⟨trivial, read⟩, trivial⟩, ?_⟩, .inl ?_⟩
    · exact Expr.asPattern_ident read
    · exact ⟨operand_ident (Nat.le_refl _) id, rfl, rfl⟩
  refine start_bind (.get (.ite (fun atStart => ?_) fun _ => isName))
  refine secondKind_bind fun _ => .ite (fun _ => ?_) fun _ => isName
  refine .bind ((bindingName_ensures sound).mono fun id middle ⟨passes, read, _⟩ => ?_)
  refine (arrow_ensures hold passes.sound _ ?_).mono fun expr after result => ?_
  · exact List.forall_mem_singleton.mpr (Expr.asPattern_ident read)
  · rcases result with ⟨moves, grammatical, kind, closes⟩
    refine ⟨passes.toMoves.trans moves, .of_refused (fun _ => grammatical) ?_, .inr ?_⟩
    · cases expr with
      | arrow => intro use; rfl
      | _ => cases kind
    · exact ⟨kind, eq_of_beq atStart, closes⟩

/-! ## Primary expressions -/

theorem atom_of_literal {expr : Expr} (isLiteral : expr.kind = .arrayExpression ∨
    expr.kind = .objectExpression ∨ expr.kind = .regExpLiteral) : expr.Atom := by
  cases expr with
  | array => exact ⟨⟨rfl, .inl (Nat.le_refl _)⟩, rfl, rfl⟩
  | object => exact ⟨⟨rfl, .inl (Nat.le_refl _)⟩, rfl, rfl⟩
  | regExp => exact ⟨⟨rfl, .inl (Nat.le_refl _)⟩, rfl, rfl⟩
  | _ => simp [Expr.kind] at isLiteral

theorem primary_ensures (hold : RulesHold rules) (sound : before.Sound) :
    Ensures (primary rules) before (PrimaryRead before) := by
  have word : ∀ build : Span → Expr, (∀ loc, (build loc).Grammatical ∧ (build loc).Atom ∧
      ∀ use, reinterpret use (build loc) = use.refuse (build loc)) →
      Ensures (do return build (← advance).span) before (PrimaryRead before) := by
    intro build holds
    refine .bind ((advance_ensures sound).mono fun token after ⟨_, passes, _⟩ => .pure ?_)
    rcases holds token.span with ⟨grammatical, atom, refused⟩
    exact ⟨passes.toMoves, .of_refused (fun _ => grammatical) refused, .inl atom⟩
  have templates : before.lookahead.kind.isTemplate = true →
      Ensures (templateLiteral rules) before (PrimaryRead before) := by
    intro isTemplate
    refine .bind ((template_ensures hold sound isTemplate).mono fun parts after result => .pure ?_)
    rcases result with ⟨passes, shape, reads, holes⟩
    refine ⟨passes.toMoves, .of_refused (fun _ => ⟨⟨shape, reads⟩, ?_⟩) fun _ => rfl, .inl ?_⟩
    · exact (itemsInside_iff _ _).mpr holes
    · exact ⟨⟨rfl, .inl (Nat.le_refl _)⟩, rfl, rfl⟩
  have regExps : before.lookahead.kind = .punctuator .slash ∨
      before.lookahead.kind = .punctuator .slashEqual →
      Ensures regExpLiteral before (PrimaryRead before) := by
    intro isSlash
    refine (regExpLiteral_ensures sound isSlash).mono fun expr after result => ?_
    rcases result with ⟨passes, grammatical, kind⟩
    refine ⟨passes.toMoves, .of_refused (fun _ => grammatical) ?_, .inl ?_⟩
    · cases expr with
      | regExp => exact fun _ => rfl
      | _ => cases kind
    · exact atom_of_literal (.inr (.inr kind))
  refine kind_bind ?_
  split
  · exact nameOrArrow_ensures hold sound
  · next isNumber =>
      refine .bind ((numberLiteral_ensures sound isNumber).mono fun literal after result => ?_)
      rcases result with ⟨passes, read, plain⟩
      refine .pure ⟨passes.toMoves, .of_refused (fun _ => ?_) fun _ => rfl, .inl ?_⟩
      · exact ⟨⟨trivial, read⟩, trivial⟩
      · exact ⟨⟨rfl, plain.precedence.imp (fun equal => Nat.le_of_eq equal.symm) id⟩, rfl, rfl⟩
  · refine .bind ((stringLiteral_ensures sound).mono fun literal after passes => .pure ?_)
    refine ⟨passes.toMoves, .of_refused (fun _ => ?_) fun _ => rfl, .inl ?_⟩
    · exact ⟨⟨trivial, trivial⟩, trivial⟩
    · exact ⟨⟨rfl, .inl (Nat.le_refl _)⟩, rfl, rfl⟩
  · exact word (.boolean · true) fun loc =>
      ⟨⟨⟨trivial, trivial⟩, trivial⟩, ⟨⟨rfl, .inl (Nat.le_refl _)⟩, rfl, rfl⟩, fun _ => rfl⟩
  · exact word (.boolean · false) fun loc =>
      ⟨⟨⟨trivial, trivial⟩, trivial⟩, ⟨⟨rfl, .inl (Nat.le_refl _)⟩, rfl, rfl⟩, fun _ => rfl⟩
  · exact word .null fun loc =>
      ⟨⟨⟨trivial, trivial⟩, trivial⟩, ⟨⟨rfl, .inl (Nat.le_refl _)⟩, rfl, rfl⟩, fun _ => rfl⟩
  · exact word .this fun loc =>
      ⟨⟨⟨trivial, trivial⟩, trivial⟩, ⟨⟨rfl, .inl (Nat.le_refl _)⟩, rfl, rfl⟩, fun _ => rfl⟩
  · next isTemplate => exact templates (by simp [isTemplate, TokenKind.isTemplate])
  · next isTemplate => exact templates (by simp [isTemplate, TokenKind.isTemplate])
  · refine (arrayLiteral_ensures hold sound).mono fun expr after ⟨moves, cover, kind⟩ => ?_
    exact ⟨moves, cover, .inl (atom_of_literal (.inl kind))⟩
  · refine (objectLiteral_ensures hold sound).mono fun expr after ⟨moves, cover, kind⟩ => ?_
    exact ⟨moves, cover, .inl (atom_of_literal (.inr (.inl kind)))⟩
  · exact groupOrArrow_ensures hold sound
  · next isSlash => exact regExps (.inl isSlash)
  · next isSlash => exact regExps (.inr isSlash)
  · exact unexpected_ensures

/-! ## Links -/

/-- A link leads on from its owner: the chain is optional only if the link or the
owner is. -/
structure LinkRead (before : ParserState) (owner : Expr) (optional : Bool) (expr : Expr)
    (after : ParserState) : Prop where
  passes : before.Passes after
  head : expr.Stands after.pendingInitializer Precedence.call
  optionalChain : expr.isOptionalChain = true → (optional || owner.isOptionalChain) = true

theorem member_read {after : ParserState} {owner : Expr}
    (head : owner.Stands before.pendingInitializer Precedence.call) (passes : before.Passes after) (loc : Span)
    (key : MemberKey) (shape : key.Shape) (lexical : key.Lexical)
    (inside : key.Inside grammatical) (optional : Bool) :
    LinkRead before owner optional (.member loc owner key optional) after := by
  refine ⟨passes, ⟨.of_refused (fun isNone => ?_) fun _ => rfl, rfl, .inl (Nat.le_refl _)⟩, id⟩
  rw [passes.pending] at isNone
  exact ⟨⟨⟨head.operand, shape⟩, lexical⟩, head.cover.whole isNone, inside⟩

theorem namedMember_ensures (sound : before.Sound) (start : Position) {owner : Expr}
    (head : owner.Stands before.pendingInitializer Precedence.call) (optional : Bool) :
    Ensures (namedMember start owner optional) before fun expr after =>
      LinkRead before owner optional expr after ∧
        expr.constructs = (!optional && owner.constructs) := by
  refine .bind ((propertyName_ensures sound).mono fun id after ⟨passes, read⟩ => ?_)
  refine spanFrom_bind fun loc => .pure ⟨?_, rfl⟩
  exact member_read head passes loc (.name id) trivial read trivial optional

theorem bracketMember_ensures (hold : RulesHold rules) (sound : before.Sound) (start : Position)
    {owner : Expr} (head : owner.Stands before.pendingInitializer Precedence.call) (optional : Bool) :
    Ensures (bracketMember rules start owner optional) before fun expr after =>
      LinkRead before owner optional expr after ∧
        expr.constructs = (!optional && owner.constructs) := by
  refine .bind ((computedMember_ensures hold sound).mono fun key after result => ?_)
  rcases result with ⟨passes, inside, shape, lexical⟩
  refine spanFrom_bind fun loc => .pure ⟨?_, rfl⟩
  exact member_read head passes loc key shape lexical inside optional

theorem callWith_ensures (hold : RulesHold rules) (sound : before.Sound) (start : Position)
    {callee : Expr} (head : callee.Stands before.pendingInitializer Precedence.call) (optional : Bool) :
    Ensures (callWith rules start callee optional) before (LinkRead before callee optional) := by
  refine .bind ((arguments_ensures hold sound).mono fun args after ⟨passes, items⟩ => ?_)
  refine spanFrom_bind fun loc => .pure ⟨passes, ⟨.of_refused (fun isNone => ?_) fun _ => rfl, rfl,
    .inl (Nat.le_refl _)⟩, id⟩
  rw [passes.pending] at isNone
  refine ⟨⟨⟨head.operand, fun item member => (items item member).2⟩, trivial⟩, ?_, ?_⟩
  · exact head.cover.whole isNone
  · exact (itemsInside_iff _ _).mpr fun item member => (items item member).1

theorem taggedTemplate_ensures (hold : RulesHold rules) (sound : before.Sound) (start : Position)
    {tag : Expr} (head : tag.Stands before.pendingInitializer Precedence.call)
    (notOptional : tag.isOptionalChain = false)
    (isTemplate : before.lookahead.kind.isTemplate = true) :
    Ensures (taggedTemplate rules start tag) before fun expr after =>
      LinkRead before tag false expr after ∧ expr.constructs = tag.constructs := by
  refine .bind ((template_ensures hold sound isTemplate).mono fun parts after result => ?_)
  rcases result with ⟨passes, shape, reads, holes⟩
  refine spanFrom_bind fun loc => .pure ⟨⟨passes, ⟨.of_refused (fun isNone => ?_) fun _ => rfl, rfl,
    .inl (Nat.le_refl _)⟩, nofun⟩, rfl⟩
  rw [passes.pending] at isNone
  refine ⟨⟨⟨⟨head.operand, notOptional⟩, shape⟩, reads⟩, ?_, ?_⟩
  · exact head.cover.whole isNone
  · exact (itemsInside_iff _ _).mpr holes

theorem optionalLink_ensures (hold : RulesHold rules) (sound : before.Sound) (start : Position)
    {owner : Expr} (head : owner.Stands before.pendingInitializer Precedence.call) :
    Ensures (optionalLink rules start owner) before (LinkRead before owner true) := by
  refine kind_bind ?_
  split
  · exact callWith_ensures hold sound start head true
  · exact (bracketMember_ensures hold sound start head true).mono fun _ _ result => result.1
  · refine .ite (fun _ => start_bind (.bind (fail_ensures _ _))) fun _ => ?_
    exact (namedMember_ensures sound start head true).mono fun _ _ result => result.1

/-! ## Constructions -/

theorem isOptionalChain_of_constructs {expr : Expr} (constructs : expr.constructs = true) :
    expr.isOptionalChain = false := by
  induction expr using Expr.isOptionalChain.induct with
  | case1 loc owner key optional induction =>
      simp only [Expr.constructs, Bool.and_eq_true, Bool.not_eq_true'] at constructs
      simp only [Expr.isOptionalChain, constructs.1, induction constructs.2, Bool.or_self]
  | case2 => cases constructs
  | case3 expr notMember notCall => rw [Expr.isOptionalChain] <;> assumption

theorem constructor_ensures (hold : RulesHold rules) (sound : before.Sound)
    (behind : before.assignmentStart < before.offset) :
    Ensures (constructor rules) before fun callee after => before.Moves after ∧
      callee.Stands after.pendingInitializer Precedence.call ∧ callee.constructs = true := by
  have head : Ensures (if before.lookahead.kind == .keyword .newWord then rules .construction
      else primary rules) before fun callee after => before.Moves after ∧
        callee.Stands after.pendingInitializer Precedence.call ∧ callee.constructs = true := by
    refine .ite (fun isNew => ?_) fun _ => ?_
    · refine (hold.construction before sound (eq_of_beq isNew)).mono fun expr after result => ?_
      rcases result with ⟨moves, cover, kind⟩
      cases expr with
      | new => exact ⟨moves, ⟨cover, rfl, .inl (Nat.le_refl _)⟩, rfl⟩
      | _ => cases kind
    · refine (primary_ensures hold sound).mono fun expr after ⟨moves, cover, primary⟩ => ?_
      rcases primary with atom | ⟨-, atStart, -⟩
      · exact ⟨moves, ⟨cover, atom.operand.mono (by decide)⟩, atom.constructs⟩
      · omega
  refine kind_bind (.iteBind (head.mono fun first middle result => ?_))
  refine loop_ensures (fun (callee : Expr) state => before.Moves state ∧
    callee.Stands state.pendingInitializer Precedence.call ∧ callee.constructs = true) ?_ result
  rintro callee state ⟨moves, head, constructs⟩
  have tagged : state.lookahead.kind.isTemplate = true →
      Ensures (do return Round.again (← taggedTemplate rules first.loc.start callee)) state
        fun (outcome : Round Expr Expr) after => outcome.Holds (fun callee => before.Moves after ∧
          callee.Stands after.pendingInitializer Precedence.call ∧ callee.constructs = true) fun callee =>
            before.Moves after ∧ callee.Stands after.pendingInitializer Precedence.call ∧
              callee.constructs = true := by
    intro isTemplate
    have notOptional := isOptionalChain_of_constructs constructs
    refine .bind ((taggedTemplate_ensures hold moves.sound _ head notOptional isTemplate).mono
      fun expr after ⟨read, equal⟩ => .pure ?_)
    exact ⟨moves.trans read.passes.toMoves, read.head, equal.trans constructs⟩
  refine kind_bind ?_
  split
  · refine .bind ((advance_ensures moves.sound).mono fun _ middle ⟨_, passes, _⟩ => ?_)
    refine .bind ((namedMember_ensures passes.sound _ (passes.pending ▸ head) false).mono
      fun expr after ⟨read, equal⟩ => .pure ?_)
    exact ⟨moves.trans (passes.toMoves.trans read.passes.toMoves), read.head,
      equal.trans constructs⟩
  · refine .bind ((bracketMember_ensures hold moves.sound _ head false).mono
      fun expr after ⟨read, equal⟩ => .pure ?_)
    exact ⟨moves.trans read.passes.toMoves, read.head, equal.trans constructs⟩
  · next isTemplate => exact tagged (by simp [isTemplate, TokenKind.isTemplate])
  · next isTemplate => exact tagged (by simp [isTemplate, TokenKind.isTemplate])
  · exact start_bind (fail_ensures _ _)
  · exact .pure ⟨moves, head, constructs⟩

theorem construction_ensures (hold : RulesHold rules) (sound : before.Sound)
    (isNew : before.lookahead.kind = .keyword .newWord) :
    Ensures (construction rules) before fun expr after => before.Moves after ∧
      expr.Cover after.pendingInitializer ∧ expr.kind = .newExpression := by
  refine start_bind (.bind ((advance_ensures sound).mono fun _ opened result => ?_))
  rcases result with ⟨-, opens, further⟩
  have behind : opened.assignmentStart < opened.offset := by
    have further := further (by simp [isNew])
    have begun := sound.begun
    rw [opens.assignmentStart]
    omega
  refine at?_bind (.ite (fun _ => .bind unexpected_ensures) fun _ => ?_)
  refine .bind ((constructor_ensures hold opens.sound behind).mono fun callee middle result => ?_)
  rcases result with ⟨moves, head, constructs⟩
  have arguments : Ensures (if middle.lookahead.kind == .punctuator .leftParen then
      arguments rules else pure []) middle fun args after => middle.Passes after ∧
        ∀ argument ∈ args, argument.Grammatical ∧ argument.Item := by
    refine .ite (fun _ => arguments_ensures hold moves.sound) fun _ => ?_
    exact .pure ⟨.refl moves.sound, by simp⟩
  refine at?_bind (.iteBind (arguments.mono fun args after ⟨passes, items⟩ => ?_))
  refine spanFrom_bind fun loc => .pure
    ⟨opens.toMoves.trans (moves.trans passes.toMoves), .of_refused (fun isNone => ?_) ?_, rfl⟩
  · rw [passes.pending] at isNone
    refine ⟨⟨⟨⟨head.operand, constructs⟩, ?_⟩, trivial⟩, head.cover.whole isNone, ?_⟩
    · exact fun argument member => (items argument member).2
    · exact (itemsInside_iff _ _).mpr fun argument member => (items argument member).1
  · exact fun _ => rfl

/-! ## Chains -/

/-- The flag of the loop is set before a link makes the chain optional. -/
theorem links_ensures (hold : RulesHold rules) (sound : before.Sound) (start : Position)
    {first : Expr} (head : first.Stands before.pendingInitializer Precedence.call)
    (notOptional : first.isOptionalChain = false) :
    Ensures (links rules start first) before fun expr after => before.Passes after ∧
      expr.Stands after.pendingInitializer Precedence.call := by
  refine loop_ensures (fun (chain : Expr × Bool) state => before.Passes state ∧
    chain.1.Stands state.pendingInitializer Precedence.call ∧
      (chain.2 = false → chain.1.isOptionalChain = false))
    ?_ ⟨.refl sound, head, fun _ => notOptional⟩
  rintro ⟨expr, afterOptional⟩ state ⟨passes, head, notOptional⟩
  have goesOn : ∀ middle expr' after, state.Passes middle →
      LinkRead middle expr false expr' after → before.Passes after ∧
        expr'.Stands after.pendingInitializer Precedence.call ∧
        (afterOptional = false → expr'.isOptionalChain = false) := by
    intro middle expr' after steps read
    refine ⟨passes.trans (steps.trans read.passes), read.head, fun isFalse => ?_⟩
    have optionalChain := read.optionalChain
    simp only [notOptional isFalse] at optionalChain
    exact Bool.eq_false_iff.mpr fun isTrue => by cases optionalChain isTrue
  have tagged : state.lookahead.kind.isTemplate = true →
      Ensures (do
        if afterOptional then fail .taggedOptionalChain (← Parse.start)
        return Round.again (← taggedTemplate rules start expr, afterOptional)) state
        fun (outcome : Round (Expr × Bool) Expr) after => outcome.Holds
          (fun chain => before.Passes after ∧
            chain.1.Stands after.pendingInitializer Precedence.call ∧
            (chain.2 = false → chain.1.isOptionalChain = false))
          fun expr => before.Passes after ∧ expr.Stands after.pendingInitializer Precedence.call := by
    intro isTemplate
    refine .ite (fun _ => start_bind (.bind (fail_ensures _ _))) fun isFalse => ?_
    have notOptional := notOptional (Bool.eq_false_iff.mpr isFalse)
    refine .bind ((taggedTemplate_ensures hold passes.sound _ head notOptional isTemplate).mono
      fun expr' after ⟨read, _⟩ => .pure ?_)
    exact goesOn state expr' after (.refl passes.sound) read
  refine kind_bind ?_
  split
  · refine .bind ((advance_ensures passes.sound).mono fun _ middle ⟨_, steps, _⟩ => ?_)
    refine .bind ((namedMember_ensures steps.sound _ (steps.pending ▸ head) false).mono
      fun expr' after ⟨read, _⟩ => .pure ?_)
    exact goesOn middle expr' after steps read
  · refine .bind ((bracketMember_ensures hold passes.sound _ head false).mono
      fun expr' after ⟨read, _⟩ => .pure ?_)
    exact goesOn state expr' after (.refl passes.sound) read
  · refine .bind ((callWith_ensures hold passes.sound _ head false).mono
      fun expr' after read => .pure ?_)
    exact goesOn state expr' after (.refl passes.sound) read
  · refine .bind ((advance_ensures passes.sound).mono fun _ middle ⟨_, steps, _⟩ => ?_)
    refine .bind ((optionalLink_ensures hold steps.sound _ (steps.pending ▸ head)).mono
      fun expr' after read => .pure ?_)
    exact ⟨passes.trans (steps.trans read.passes), read.head, nofun⟩
  · next isTemplate => exact tagged (by simp [isTemplate, TokenKind.isTemplate])
  · next isTemplate => exact tagged (by simp [isTemplate, TokenKind.isTemplate])
  · exact .pure ⟨passes, head⟩

theorem chain_ensures (hold : RulesHold rules) : Level Precedence.call (fun _ => True) (chain rules) := by
  intro before sound
  have first : Ensures (if before.lookahead.kind == .keyword .newWord then construction rules
      else primary rules) before fun expr after => before.Moves after ∧
        expr.Cover after.pendingInitializer ∧
        (expr.Operand Precedence.call ∧ expr.isOptionalChain = false ∨
          expr.kind = .arrowFunctionExpression ∧ before.offset = before.assignmentStart ∧
            after.lookahead.kind.Closes) := by
    refine .ite (fun isNew => ?_) fun _ => ?_
    · refine (construction_ensures hold sound (eq_of_beq isNew)).mono fun expr after result => ?_
      rcases result with ⟨moves, cover, kind⟩
      cases expr with
      | new => exact ⟨moves, cover, .inl ⟨⟨rfl, .inl (Nat.le_refl _)⟩, rfl⟩⟩
      | _ => cases kind
    · refine (primary_ensures hold sound).mono fun expr after ⟨moves, cover, primary⟩ => ?_
      rcases primary with atom | isArrow
      · exact ⟨moves, cover, .inl ⟨atom.operand.mono (by decide), atom.notOptional⟩⟩
      · exact ⟨moves, cover, .inr isArrow⟩
  refine start_bind (kind_bind (.iteBind (first.mono fun expr middle result => ?_)))
  rcases result with ⟨moves, cover, ⟨operand, notOptional⟩ | ⟨kind, atStart, closes⟩⟩
  · dsimp only
    split
    · exact .pure ⟨moves, cover, ⟨operand.notSpread, .inl operand.fits⟩, trivial⟩
    · refine (links_ensures hold moves.sound _ ⟨cover, operand⟩ notOptional).mono ?_
      intro expr after ⟨passes, head⟩
      refine ⟨moves.trans passes.toMoves, head.cover, ⟨head.operand.notSpread, ?_⟩, trivial⟩
      exact .inl head.operand.fits
  · cases expr with
    | arrow => exact .pure ⟨moves, cover, ⟨rfl, .inr ⟨rfl, atStart, closes⟩⟩, trivial⟩
    | _ => cases kind

end Parse

end ExprScript
