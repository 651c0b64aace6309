import ExprScript.Grammar.Expression
import ExprScript.Proofs.Grammar.Chain
import ExprScript.Proofs.Grammar.Climb

/-! # The grammar builds grammatical trees

Every rule keeps its promise if the rules inside of it do, so all of them do, at
every depth.
-/

namespace ExprScript

open ParserState

theorem Expr.operand_of_isSimpleTarget {expr : Expr} (simple : expr.isSimpleTarget = true) :
    expr.Operand Precedence.call := by
  have primary : Precedence.call ≤ Precedence.primary := by decide
  cases expr with
  | ident => exact ⟨rfl, .inl primary⟩
  | member => exact ⟨rfl, .inl (Nat.le_refl _)⟩
  | paren => exact ⟨rfl, .inl primary⟩
  | _ => cases simple

/-- A literal has no sign, so whatever binds like a unary operation and is none
may be the base of a power. -/
theorem Expr.powerBase_of_operand {expr : Expr} (grammatical : expr.Grammatical)
    (operand : expr.Operand Precedence.unary) (notUnary : expr.kind ≠ .unaryExpression) :
    expr.PowerBase := by
  rcases operand with ⟨notSpread, fits⟩
  have loose : expr.precedence < Precedence.unary → expr.isInfiniteLiteral = false → False := by
    intro loose notInfinite
    rcases fits with fits | isInfinite
    · omega
    · rw [notInfinite] at isInfinite
      cases isInfinite
  have primary : Precedence.postfixed ≤ Precedence.primary := by decide
  have call : Precedence.postfixed ≤ Precedence.call := by decide
  have powers : Precedence.exponent < Precedence.unary := by decide
  cases expr with
  | unary => exact absurd rfl notUnary
  | update loc op place argument =>
      cases place with
      | before => trivial
      | after => exact ⟨rfl, .inl (Nat.le_refl _)⟩
  | number literal =>
      rcases grammatical with ⟨⟨-, token, ⟨before, after, -, run⟩, isNumber, payload⟩, -⟩
      rcases Scanner.next_plain before _ _ run isNumber with ⟨number, payload', plain⟩
      rw [payload] at payload'
      cases payload'
      refine ⟨rfl, plain.precedence.imp_left fun equal => ?_⟩
      rw [Expr.precedence, equal]
      exact primary
  | spread => cases notSpread
  | binary loc op left right =>
      exact (loose (Nat.lt_of_le_of_lt op.precedence_le_exponent powers) rfl).elim
  | logical loc op left right =>
      exact (loose (Nat.lt_trans op.precedence_lt_exponent powers) rfl).elim
  | sequence => exact (loose (show Precedence.sequence < Precedence.unary by decide) rfl).elim
  | assign => exact (loose (show Precedence.assignment < Precedence.unary by decide) rfl).elim
  | destructure => exact (loose (show Precedence.assignment < Precedence.unary by decide) rfl).elim
  | arrow => exact (loose (show Precedence.assignment < Precedence.unary by decide) rfl).elim
  | conditional =>
      exact (loose (show Precedence.conditional < Precedence.unary by decide) rfl).elim
  | member => exact ⟨rfl, .inl call⟩
  | call => exact ⟨rfl, .inl call⟩
  | new => exact ⟨rfl, .inl call⟩
  | tagged => exact ⟨rfl, .inl call⟩
  | _ => exact ⟨rfl, .inl primary⟩

namespace Parse

variable {rules : Rules}

/-! ## Operators on one operand -/

theorem postfixed_ensures (hold : RulesHold rules) :
    Level Precedence.postfixed (fun _ => True) (postfixed rules) := by
  intro before sound
  refine start_bind (.bind (((chain_ensures hold).inherited before sound).mono ?_))
  intro expr middle ⟨moves, cover, ranks, _⟩
  have asIs : Ensures (pure expr : Parse Expr) middle fun expr after => before.Moves after ∧
      expr.Cover after.pendingInitializer ∧ expr.Ranks Precedence.postfixed
        (before.offset = before.assignmentStart) after.lookahead ∧ True :=
    .pure ⟨moves, cover, ranks.mono (by decide), trivial⟩
  refine lookahead_bind ?_
  split
  · exact asIs
  · refine .ite (fun _ => asIs) fun _ => ?_
    refine .ite (fun _ => .bind (fail_ensures _ _)) fun simple => ?_
    simp only [Bool.not_eq_true', Bool.not_eq_false] at simple
    refine .bind ((advance_ensures moves.sound).mono fun _ after ⟨_, passes, _⟩ => ?_)
    refine spanFrom_bind fun loc => .pure
      ⟨moves.trans passes.toMoves, .of_refused (fun isNone => ?_) fun _ => rfl, ?_, trivial⟩
    · rw [passes.pending] at isNone
      exact ⟨⟨⟨simple, Expr.operand_of_isSimpleTarget simple⟩, trivial⟩, cover.whole isNone⟩
    · exact ⟨rfl, .inl (.inl (Nat.le_refl _))⟩

theorem behind_of_advance {before after : ParserState} (sound : before.Sound)
    (passes : before.Passes after) (further : before.offset < after.offset) :
    after.assignmentStart < after.offset := by
  have begun := sound.begun
  rw [passes.assignmentStart]
  omega

theorem unary_ensures (hold : RulesHold rules) :
    Level Precedence.unary (fun _ => True) (unary rules) := by
  intro before sound
  refine start_bind (kind_bind ?_)
  have operand : before.lookahead.kind ≠ .endOfInput → Ensures advance before fun _ middle =>
      Ensures (isolate (rules .unary)) middle fun expr after => before.Passes after ∧
        expr.Grammatical ∧ expr.Operand Precedence.unary := by
    intro notEnd
    refine (advance_ensures sound).mono fun _ middle ⟨_, opens, further⟩ => ?_
    have behind := behind_of_advance sound opens (further notEnd)
    refine (hold.unary.isolated opens.sound behind).mono fun argument after result => ?_
    rcases result with ⟨passes, grammatical, -, operand, -⟩
    exact ⟨opens.trans passes, grammatical, operand⟩
  split
  · next op found =>
      have notEnd : before.lookahead.kind ≠ .endOfInput := by
        intro isEnd
        rw [isEnd] at found
        cases found
      refine .bind ((operand notEnd).mono fun _ _ inner => .bind (inner.mono ?_))
      intro argument after ⟨passes, grammatical, operand⟩
      refine spanFrom_bind fun loc => .pure ⟨passes.toMoves, .of_refused ?_ fun _ => rfl, ?_, trivial⟩
      · exact fun _ => ⟨⟨operand, trivial⟩, grammatical⟩
      · exact ⟨rfl, .inl (.inl (Nat.le_refl _))⟩
  · next op _ found =>
      have notEnd : before.lookahead.kind ≠ .endOfInput := by
        intro isEnd
        rw [isEnd] at found
        cases found
      refine .bind ((operand notEnd).mono fun _ _ inner => .bind (inner.mono ?_))
      intro argument after ⟨passes, grammatical, operand⟩
      refine .ite (fun _ => .bind (fail_ensures _ _)) fun simple => ?_
      simp only [Bool.not_eq_true', Bool.not_eq_false] at simple
      refine spanFrom_bind fun loc => .pure ⟨passes.toMoves, .of_refused ?_ fun _ => rfl, ?_, trivial⟩
      · exact fun _ => ⟨⟨⟨simple, Expr.operand_of_isSimpleTarget simple⟩, trivial⟩, grammatical⟩
      · exact ⟨rfl, .inl (.inl (Nat.le_refl _))⟩
  · exact (postfixed_ensures hold).mono (by decide) (fun _ => id) before sound

theorem exponent_ensures (hold : RulesHold rules) :
    Level Precedence.exponent (· ≠ .punctuator .starStar) (exponent rules) := by
  intro before sound
  refine .bind (((unary_ensures hold).inherited before sound).mono ?_)
  intro base middle ⟨moves, cover, ⟨notSpread, ranks⟩, _⟩
  refine at?_bind (.ite (fun notPower => .pure ?_) fun isPower => ?_)
  · refine ⟨moves, cover, Expr.Ranks.mono ⟨notSpread, ranks⟩ (by decide), ?_⟩
    simpa using notPower
  · simp only [Bool.not_eq_true', Bool.not_eq_false, beq_iff_eq] at isPower
    refine .ite (fun _ => start_bind (.bind (fail_ensures _ _))) fun notUnary => ?_
    have operand : base.Operand Precedence.unary := by
      rcases ranks with fits | ⟨-, -, closes⟩
      · exact ⟨notSpread, fits⟩
      · exact absurd isPower closes.1
    refine .bind ((advance_ensures moves.sound).mono fun _ opened ⟨_, opens, further⟩ => ?_)
    have behind := behind_of_advance moves.sound opens (further (by simp [isPower]))
    refine .bind ((hold.exponent.isolated opens.sound behind).mono fun power after result => ?_)
    rcases result with ⟨passes, grammatical, -, operand', stops⟩
    refine .pure ⟨moves.trans (opens.toMoves.trans passes.toMoves), .of_refused ?_ fun _ => rfl,
      ⟨rfl, .inl (.inl (Nat.le_refl _))⟩, stops⟩
    intro isNone
    rw [passes.pending, opens.pending] at isNone
    have whole := cover.whole isNone
    refine ⟨⟨?_, trivial⟩, whole, grammatical⟩
    rw [Expr.Shape, if_pos rfl]
    exact ⟨Expr.powerBase_of_operand whole operand (by simpa using notUnary), operand'⟩

/-! ## Operators between operands -/

theorem binary_ensures (hold : RulesHold rules) : Level Precedence.nullishOr
    (fun kind => kind ≠ .punctuator .starStar ∧ binaryPrecedence kind = 0) (binary rules) := by
  intro before sound
  refine .bind (((exponent_ensures hold).inherited before sound).mono ?_)
  intro first opened ⟨moves, cover, ⟨notSpread, ranks⟩, stops⟩
  -- Before the first operator, the first operand may still be an arrow function.
  refine .bind (loop_ensures (fun (climb : Climb) state => opened.Passes state ∧
    state.lookahead.kind ≠ .punctuator .starStar ∧
    (climb = { operands := [first] } ∧ state = opened ∨
      Climb.Stacked opened.pendingInitializer Precedence.exponent climb.operators
        climb.operands)) ?_ ⟨.refl moves.sound, stops, .inl ⟨rfl, rfl⟩⟩)
  rintro climb state ⟨passes, stops, climbing⟩
  refine kind_bind (.ite (fun noOperator => ?_) fun isOperator => ?_)
  · refine .pure (.get (ofExcept_ensures fun result run => ?_))
    rcases climbing with ⟨rfl, rfl⟩ | stacked
    · cases run
      exact ⟨moves, cover, Expr.Ranks.mono ⟨notSpread, ranks⟩ (by decide), stops, noOperator⟩
    · rcases stacked.finish run with ⟨cover, operand⟩
      refine ⟨moves.trans passes.toMoves, passes.pending ▸ cover, ?_, stops, noOperator⟩
      exact ⟨operand.notSpread, .inl operand.fits⟩
  · rcases InfixOp.exists_of_token isOperator with ⟨op, found⟩
    have stacked : Climb.Stacked opened.pendingInitializer Precedence.exponent climb.operators
        climb.operands := by
      rcases climbing with ⟨rfl, rfl⟩ | stacked
      · rcases ranks with fits | ⟨-, -, closes⟩
        · exact .bottom ⟨cover, notSpread, fits⟩
        · exact absurd closes.2.1 isOperator
      · exact stacked
    have notEnd : state.lookahead.kind ≠ .endOfInput := by
      intro isEnd
      rw [isEnd] at isOperator
      exact isOperator rfl
    refine start_bind (ofExcept_bind fun shifted shift => ?_)
    refine .bind ((advance_ensures passes.sound).mono fun _ middle ⟨_, steps, further⟩ => ?_)
    have behind := behind_of_advance passes.sound steps (further notEnd)
    refine .bind (((exponent_ensures hold).isolated steps.sound behind).mono ?_)
    intro operand after ⟨passes', grammatical, asPattern, operand', stops'⟩
    refine .pure ⟨passes.trans (steps.trans passes'), stops', .inr ?_⟩
    have shifts : climb.shift (InfixOperator.stacked ⟨_, op, _, found⟩) = .ok shifted := shift
    exact stacked.shift shifts ⟨⟨fun _ => grammatical, asPattern⟩, operand'⟩

theorem conditional_ensures (hold : RulesHold rules) :
    Level Precedence.conditional TokenKind.Closes (conditional rules) := by
  intro before sound
  refine start_bind (.bind (((binary_ensures hold).inherited before sound).mono ?_))
  intro test middle ⟨moves, cover, ⟨notSpread, ranks⟩, notPower, noOperator⟩
  refine at?_bind (.ite (fun notQuestion => .pure ?_) fun isQuestion => ?_)
  · refine ⟨moves, cover, Expr.Ranks.mono ⟨notSpread, ranks⟩ (by decide), notPower, noOperator, ?_⟩
    simpa using notQuestion
  · simp only [Bool.not_eq_true', Bool.not_eq_false, beq_iff_eq] at isQuestion
    have operand : test.Operand Precedence.nullishOr := by
      rcases ranks with fits | ⟨-, -, closes⟩
      · exact ⟨notSpread, fits⟩
      · exact absurd isQuestion closes.2.2
    refine .bind ((advance_ensures moves.sound).mono fun _ opened ⟨_, opens, _⟩ => ?_)
    refine .bind ((hold.isolated opens.sound).mono fun consequent divided result => ?_)
    rcases result with ⟨passes, grammatical, operand', -⟩
    refine .bind ((expect_ensures .colon passes.sound).mono fun _ behind ⟨_, _, steps, _⟩ => ?_)
    refine .bind ((hold.isolated steps.sound).mono fun alternate after result => ?_)
    rcases result with ⟨passes', grammatical', operand'', closes⟩
    have leads := opens.trans (passes.trans (steps.trans passes'))
    refine spanFrom_bind fun loc => .pure ⟨moves.trans leads.toMoves, .of_refused ?_ fun _ => rfl,
      ⟨rfl, .inl (.inl (Nat.le_refl _))⟩, closes⟩
    intro isNone
    rw [leads.pending] at isNone
    exact ⟨⟨⟨operand, operand', operand''⟩, trivial⟩, cover.whole isNone, grammatical, grammatical'⟩

/-! ## Assignments -/

def AssignmentRead (before : ParserState) (expr : Expr) (after : ParserState) : Prop :=
  before.Moves after ∧ expr.Cover after.pendingInitializer ∧
    expr.Operand Precedence.assignment ∧ after.lookahead.kind.Closes

theorem assignedValue_ensures (hold : RulesHold rules) {before : ParserState}
    (sound : before.Sound) : Ensures (assignedValue rules) before fun value after =>
      before.Passes after ∧ value.Grammatical ∧ value.Operand Precedence.assignment ∧
        after.lookahead.kind.Closes := by
  refine .bind ((advance_ensures sound).mono fun _ opened ⟨_, opens, _⟩ => ?_)
  refine (hold.isolated opens.sound).mono fun value after ⟨passes, result⟩ => ?_
  exact ⟨opens.trans passes, result⟩

theorem isComposite_of_reinterpret {use : PatternUse} {literal : Expr} {pattern : Pattern}
    (isLiteral : isPatternLiteral literal = true)
    (run : reinterpret use literal = .ok pattern) : pattern.isComposite = true := by
  cases literal with
  | array loc elements =>
      rw [reinterpret] at run
      rcases except_bind_ok run with ⟨patterns, -, equal⟩
      cases equal
      rfl
  | object loc properties =>
      rw [reinterpret] at run
      rcases except_bind_ok run with ⟨patterns, -, equal⟩
      cases equal
      rfl
  | _ => cases isLiteral

theorem destructuring_ensures (hold : RulesHold rules) {before : ParserState}
    (sound : before.Sound) (start : Position) {literal : Expr}
    (isLiteral : isPatternLiteral literal = true) (asPattern : literal.AsPattern) :
    Ensures (destructuring rules start .plain literal) before (AssignmentRead before) := by
  refine ofExcept_bind fun pattern run => .get (ofExcept_bind fun _ _ => .modify ?_)
  let cleared : ParserState := { before with pendingInitializer := none }
  have clears : before.Moves cleared := ⟨⟨sound.read, sound.begun⟩, Nat.le_refl _, rfl⟩
  refine .bind ((assignedValue_ensures hold clears.sound).mono fun value after result => ?_)
  rcases result with ⟨passes, grammatical, operand, closes⟩
  have composite := isComposite_of_reinterpret isLiteral run
  have inner := asPattern _ pattern run
  refine spanFrom_bind fun loc => .pure ⟨clears.trans passes.toMoves, ⟨fun _ => ?_, ?_⟩,
    ⟨rfl, .inl (Nat.le_refl _)⟩, closes⟩
  · exact ⟨⟨⟨rfl, composite, operand⟩, trivial⟩, inner, grammatical⟩
  · exact Expr.asPattern_destructure composite inner operand grammatical

theorem assignmentTail_ensures (hold : RulesHold rules) {before : ParserState}
    (sound : before.Sound) (start : Position) {expr : Expr}
    (cover : expr.Cover before.pendingInitializer) (notSpread : expr.isSpread = false)
    (fits : expr.Fits Precedence.conditional ∨ expr.kind = .arrowFunctionExpression)
    (closes : before.lookahead.kind.Closes) :
    Ensures (assignmentTail rules start expr) before (AssignmentRead before) := by
  have asIs : expr.Fits Precedence.assignment →
      Ensures (pure expr : Parse Expr) before (AssignmentRead before) :=
    fun fits => .pure ⟨.refl sound, cover, ⟨notSpread, fits⟩, closes⟩
  refine .ite (fun isArrow => asIs ?_) fun notArrow => ?_
  · cases expr with
    | arrow => exact .inl (Nat.le_refl _)
    | _ => cases isArrow
  · simp only [beq_iff_eq] at notArrow
    refine kind_bind ?_
    split
    · refine asIs ((fits.resolve_right notArrow).imp_left ?_)
      exact Nat.le_trans (by decide)
    · next op found =>
        refine .ite (fun isPattern => ?_) fun _ => .ite (fun simple => ?_) fun _ => .throw _
        · simp only [Bool.and_eq_true, decide_eq_true_eq] at isPattern
          rcases isPattern with ⟨rfl, isLiteral⟩
          exact destructuring_ensures hold sound start isLiteral cover.asPattern
        · refine .bind ((assignedValue_ensures hold sound).mono fun value after result => ?_)
          rcases result with ⟨passes, grammatical, operand, closes⟩
          have target := Expr.operand_of_isSimpleTarget simple
          refine spanFrom_bind fun loc => .pure ⟨passes.toMoves, ⟨fun isNone => ?_, ?_⟩,
            ⟨rfl, .inl (Nat.le_refl _)⟩, closes⟩
          · rw [passes.pending] at isNone
            exact ⟨⟨⟨⟨simple, target⟩, operand⟩, trivial⟩, cover.whole isNone, grammatical⟩
          · exact Expr.asPattern_assign simple cover.asPattern operand grammatical

theorem assignment_ensures (hold : RulesHold rules) {before : ParserState}
    (sound : before.Sound) : Ensures (assignment rules) before (AssignmentRead before) := by
  refine start_bind (.get (.modify ?_))
  let begun : ParserState := { before with assignmentStart := before.offset }
  have sound' : begun.Sound := ⟨sound.read, Nat.le_refl _⟩
  refine .bind (((conditional_ensures hold).inherited begun sound').mono ?_)
  intro expr middle ⟨moves, cover, ⟨notSpread, ranks⟩, closes⟩
  have fits : expr.Fits Precedence.conditional ∨ expr.kind = .arrowFunctionExpression :=
    ranks.imp_right And.left
  refine .bind ((assignmentTail_ensures hold moves.sound _ cover notSpread fits closes).mono ?_)
  intro result after ⟨moves', cover, operand, closes⟩
  have leads := moves.trans moves'
  refine .modify (.pure ⟨⟨⟨leads.sound.read, ?_⟩, leads.offset, rfl⟩, cover, operand, closes⟩)
  exact Nat.le_trans sound.begun leads.offset

/-! ## The whole grammar -/

theorem rules_hold (depth : Nat) : RulesHold (Parse.rules depth) := by
  induction depth with
  | zero =>
      refine ⟨fun _ _ => ?_, fun _ _ => ?_, fun _ _ => ?_, fun _ _ _ => ?_, fun _ => ?_⟩ <;>
        exact start_bind (fail_ensures _ _)
  | succ depth induction =>
      refine ⟨fun _ sound => ?_, ?_, ?_, fun _ sound isNew => ?_, ?_⟩
      · exact assignment_ensures induction sound
      · exact exponent_ensures induction
      · exact unary_ensures induction
      · exact construction_ensures induction sound isNew
      · exact assignment_opensAtBrace _

theorem program_ensures (depth : Nat) {before : ParserState} (sound : before.Sound) :
    Ensures (program depth) before fun expr _ =>
      expr.Grammatical ∧ expr.Operand Precedence.sequence := by
  refine .bind ((expression_ensures (rules_hold depth) sound).mono fun expr after result => ?_)
  exact kind_bind (.ite (fun _ => .bind unexpected_ensures) fun _ => .pure result.2)

end Parse

theorem parse_grammatical {source : String} {strict : Bool} {expr : Expr}
    (parsed : parse source strict = .ok expr) :
    expr.Grammatical ∧ expr.Operand Precedence.sequence := by
  rcases runs_of_parse parsed with ⟨lookahead, scanner, after, run, program⟩
  refine Parse.program_ensures _ ⟨⟨_, Scanner.placed_ofString source, run⟩, ?_⟩ _ _ program
  exact Nat.zero_le _

/-- Whatever the text is, a tree that is parsed from it is well formed. -/
theorem parse_wellFormed (source : String) (strict : Bool) (expr : Expr)
    (parsed : parse source strict = .ok expr) : expr.WellFormed := by
  rcases parse_grammatical parsed with ⟨grammatical, operand⟩
  refine ⟨operand.notSpread, Expr.everywhere_mono ?_ ?_ grammatical⟩
  · exact fun _ holds => holds.1
  · exact fun _ holds => holds.1

theorem parse_wellFormed_destructure : ∃ expr,
    parse "[a, ...{ b = c }] = new d.e(...f) ** g" = .ok expr ∧ expr.WellFormed := by
  have parses : (parse "[a, ...{ b = c }] = new d.e(...f) ** g").isOk = true := by decide +kernel
  cases parsed : parse "[a, ...{ b = c }] = new d.e(...f) ** g" with
  | error error =>
      rw [parsed] at parses
      cases parses
  | ok expr => exact ⟨expr, rfl, parse_wellFormed _ _ _ parsed⟩

end ExprScript
