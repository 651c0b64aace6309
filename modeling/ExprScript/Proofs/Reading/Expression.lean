import ExprScript.Proofs.Reading.Operator

/-! # Reading expressions

Conditionals and assignments, and from them the rules of the grammar by induction on
their depth. A text that is scanned as the tokens of a legible expression is parsed to
this expression, up to the places in it.
-/

namespace ExprScript

open Scanner ParserState

theorem AssignOp.assignOp?_mark (op : AssignOp) :
    Parse.assignOp? (.punctuator op.mark) = some op := by
  cases op with
  | plain => rfl
  | arithmetic op => cases op <;> rfl
  | logical op => cases op <;> rfl

theorem AssignOp.continues_mark (op : AssignOp) :
    (TokenKind.punctuator op.mark).continues = Precedence.assignment :=
  TokenKind.continues_of_assign op.assignOp?_mark

namespace Parse

variable {state : ParserState} {rest : List Lexeme} {rules : Rules} {size : Nat} {expr : Expr}
  {pre : ParserState → Prop}

/-! ## Conditionals -/

theorem conditional_pass (read : expr.ReadBy pre (binary rules) rest)
    (stops : (nextKind rest).continues < Precedence.conditional) :
    expr.ReadBy pre (conditional rules) rest := by
  intro state facing clear holds
  refine start_then (.bind ((read.inherited state facing clear holds).mono ?_))
  intro found after holds
  refine at?_false (Expr.ne_mark_of_facing holds.2.facing stops (Nat.le_refl _)) ?_
  exact .iteTrue rfl (.pure holds)

theorem conditional_reads (hold : RulesRead rules size) (holds : expr.Everywhere legible)
    (small : expr.lexemes.length ≤ size) (binds : expr.Binds Precedence.conditional)
    (stops : (nextKind rest).continues < Precedence.assignment) :
    expr.ReadBy Expr.anywhere (conditional rules) rest := by
  rcases binds.conditional_or holds.1 with ⟨loc, test, consequent, alternate, rfl⟩ | binds
  · intro state facing clear _
    rcases holds with ⟨⟨settles, settles', settles''⟩, inside, inside', inside''⟩
    rw [Expr.lexemes, List.length_append, List.length_cons, List.length_append,
      List.length_cons] at small
    rw [Expr.lexemes, List.append_assoc, List.cons_append, List.append_assoc,
      List.cons_append] at facing
    have first := binary_reads hold inside (by omega) settles.toBinds
      (show (nextKind (.mark .question :: (consequent.lexemes ++
        .mark .colon :: (alternate.lexemes ++ rest)))).continues < Precedence.nullishOr from
        Nat.lt_succ_self _)
    refine start_then (.bind ((first.inherit facing).mono ?_))
    intro found middle holds
    rcases holds with ⟨same, reaches⟩
    refine at?_true reaches.facing.mark (.iteFalse (by simp) ?_)
    refine advance_then reaches.facing nofun fun second _ reaches' => .bind ?_
    refine (isolated_reads hold inside' (by omega) settles' reaches'.facing Nat.zero_lt_two).mono ?_
    intro found' third holds
    rcases holds with ⟨same', reaches''⟩
    refine expect_then reaches''.facing fun fourth colon => .bind ?_
    refine (isolated_reads hold inside'' (by omega) settles'' colon.facing stops).mono ?_
    intro found'' after holds
    refine spanFrom_then fun loc => .pure ⟨?_, ?_⟩
    · rw [Expr.erase, Expr.erase, same, same', holds.1]
    · have early := ((reaches.mono fun _ => settles.settled).andThen reaches').andThen reaches''
      exact ((early.andThen colon).andThen holds.2).mono fun _ => trivial
  · refine conditional_pass (binary_reads hold holds small binds ?_) ?_
    · exact Nat.lt_trans stops (by decide)
    · exact Nat.lt_trans stops (by decide)

/-! ## Assignments -/

theorem isPatternLiteral_erase (expr : Expr) :
    isPatternLiteral expr.erase = isPatternLiteral expr := by
  cases expr <;> simp only [Expr.erase, isPatternLiteral]

theorem isPatternLiteral_of_isSimpleTarget (isTarget : expr.isSimpleTarget = true) :
    isPatternLiteral expr = false := by
  cases expr with
  | array | object => cases isTarget
  | _ => rfl

theorem assignedValue_reads (hold : RulesRead rules size) {sign : Punctuator} {value : Expr}
    (inside : value.Everywhere legible) (small : value.lexemes.length < size)
    (settles : value.Settles Precedence.assignment)
    (facing : state.Facing (.mark sign :: (value.lexemes ++ rest)))
    (stops : (nextKind rest).continues < Precedence.assignment) :
    Achieves (assignedValue rules) state fun found after =>
      found.erase = value.erase ∧ state.Reaches rest True after := by
  refine advance_then facing nofun fun middle _ reaches => ?_
  refine (isolated_reads hold inside small settles reaches.facing stops).mono ?_
  intro found after holds
  exact ⟨holds.1, reaches.andThen holds.2⟩

def ReadBefore (expr : Expr) (rules : Rules) (result : Expr) (tokens rest : List Lexeme) : Prop :=
  ∀ (start : Position) (found : Expr) (state : ParserState), found.erase = expr.erase →
    state.Facing (tokens ++ rest) → (expr.hasInitializer = false → state.pendingInitializer = none) →
    Achieves (assignmentTail rules start found) state fun found after =>
      found.erase = result.erase ∧ after.Facing rest ∧
        after.assignmentStart = state.assignmentStart ∧
        (result.hasInitializer = false → after.pendingInitializer = none)

/-- An assignment expression is read in two parts. -/
theorem assignment_of_parts {result : Expr} {tokens : List Lexeme}
    (read : expr.ReadBy Expr.atStart (conditional rules) (tokens ++ rest))
    (tail : ReadBefore expr rules result tokens rest)
    (equal : result.lexemes = expr.lexemes ++ tokens) :
    result.ReadBy Expr.anywhere (assignment rules) rest := by
  intro state facing clear _
  rw [equal, List.append_assoc] at facing
  refine start_then (.get (.modify (.bind ?_)))
  refine (read.inherited { state with assignmentStart := state.lookahead.span.start.offset }
    ⟨facing.1, facing.2, facing.3⟩ clear rfl).mono ?_
  intro found middle holds
  rcases holds with ⟨same, reaches⟩
  refine .bind ((tail _ found middle same reaches.facing fun calm => ?_).mono ?_)
  · exact (reaches.pending calm).trans clear
  · intro found' after holds
    rcases holds with ⟨same', facing', -, pending⟩
    refine .modify (.pure ⟨same', ⟨facing'.1, facing'.2, facing'.3⟩, rfl, fun calm => ?_⟩)
    exact (pending calm).trans clear.symm

theorem readBefore_nothing (stops : (nextKind rest).continues < Precedence.assignment) :
    ReadBefore expr rules expr [] rest := by
  intro start found state same facing pending
  have known := TokenKind.notRegExp_of_continues (Nat.lt_trans stops (by decide))
  have kind : state.lookahead.kind = nextKind rest := facing.kind known
  unfold assignmentTail
  split
  · exact .pure ⟨same, facing, rfl, pending⟩
  · refine kind_then ?_
    rw [kind, TokenKind.assign_none stops]
    exact .pure ⟨same, facing, rfl, pending⟩

theorem readBefore_assign (hold : RulesRead rules size) {loc : Span} {op : AssignOp}
    {target value : Expr} (holds : (Expr.assign loc op target value).Everywhere legible)
    (small : value.lexemes.length < size)
    (stops : (nextKind rest).continues < Precedence.assignment) :
    ReadBefore target rules (.assign loc op target value) (.mark op.mark :: value.lexemes) rest := by
  intro start found state same facing pending
  rcases holds with ⟨⟨⟨isTarget, settles⟩, settles'⟩, -, inside⟩
  have isTarget' : found.isSimpleTarget = true := by
    rw [← found.isSimpleTarget_erase, same, target.isSimpleTarget_erase, isTarget]
  have notArrow : found.kind ≠ .arrowFunctionExpression := by
    cases found with
    | arrow => cases isTarget'
    | _ => nofun
  have noPattern := isPatternLiteral_of_isSimpleTarget isTarget'
  refine .iteFalse (by simpa using notArrow) (kind_then ?_)
  rw [facing.mark, op.assignOp?_mark]
  refine .iteFalse (by simp [noPattern]) (.iteTrue isTarget' (.bind ?_))
  refine (assignedValue_reads hold inside small settles' facing stops).mono ?_
  intro found' after holds
  refine spanFrom_then fun loc => .pure ⟨?_, holds.2.facing, holds.2.start, fun _ => ?_⟩
  · rw [Expr.erase, Expr.erase, same, holds.1]
  · exact (holds.2.pending trivial).trans (pending settles.settled)

theorem readBefore_destructure (hold : RulesRead rules size) {loc : Span} {pattern : Pattern}
    {value : Expr} (holds : (Expr.destructure loc .plain pattern value).Everywhere legible)
    (small : value.lexemes.length < size)
    (stops : (nextKind rest).continues < Precedence.assignment) :
    ReadBefore pattern.cover rules (.destructure loc .plain pattern value)
      (.mark .equal :: value.lexemes) rest := by
  intro start found state same facing pending
  rcases holds with ⟨⟨-, composite, settles⟩, inside, inside'⟩
  have notRest : pattern.kind ≠ .restElement := by
    cases pattern with
    | rest => cases composite
    | _ => rintro ⟨⟩
  have isLiteral : isPatternLiteral found = true := by
    rw [← isPatternLiteral_erase, same, isPatternLiteral_erase]
    cases pattern with
    | array | object => rw [Pattern.cover]; rfl
    | _ => cases composite
  have notArrow : found.kind ≠ .arrowFunctionExpression := by
    cases found with
    | arrow => cases isLiteral
    | _ => rintro ⟨⟩
  rcases Pattern.reinterpret_of_erase .assignment same inside notRest with ⟨pattern', run, same'⟩
  have checked : checkRestCommas state.trailingCommas pattern' = .ok () := by
    rw [facing.noCommas, Pattern.checkRestCommas_nil]
  refine .iteFalse (by simpa using notArrow) (kind_then ?_)
  rw [facing.mark]
  refine .iteTrue (by simp [isLiteral]) ?_
  refine ofExcept_then run (.get (ofExcept_then checked (.modify (.bind ?_))))
  have facing' : Facing { state with pendingInitializer := none }
      (.mark .equal :: (value.lexemes ++ rest)) := ⟨facing.1, facing.2, facing.3⟩
  refine (assignedValue_reads hold inside' small settles facing' stops).mono ?_
  intro found' after holds
  refine spanFrom_then fun loc => .pure ⟨?_, holds.2.facing, holds.2.start, fun _ => ?_⟩
  · rw [Expr.erase, Expr.erase, same', holds.1]
  · exact holds.2.pending trivial

/-- An arrow function passes through all levels. -/
theorem conditional_arrow (hold : RulesRead rules size) {loc : Span} {params : List Pattern}
    {body : Expr} (holds : (Expr.arrow loc params body).Everywhere legible)
    (small : (Expr.arrow loc params body).lexemes.length ≤ size)
    (stops : (nextKind rest).continues < Precedence.assignment) :
    (Expr.arrow loc params body).ReadBy Expr.atStart (conditional rules) rest := by
  have links := chain_arrow hold holds small stops
  have prefixed := unary_pass (postfixed_pass links (Nat.lt_trans stops (by decide)))
    fun state facing => by
      rw [Expr.lexemes, enclosed, List.cons_append, List.cons_append] at facing
      rw [facing.mark]
      exact ⟨rfl, rfl⟩
  have power := exponent_pass prefixed (Nat.lt_trans stops (by decide))
  have operand := binary_climbed (climbs_single _ Precedence.nullishOr rest) power
    (Nat.lt_trans stops (by decide))
  exact conditional_pass operand (Nat.lt_trans stops (by decide))

theorem precedence_cover_composite {pattern : Pattern} (composite : pattern.isComposite = true) :
    pattern.cover.Binds Precedence.call := by
  cases pattern with
  | array | object =>
      rw [Pattern.cover]
      exact ⟨rfl, Precedence.call_le_primary⟩
  | _ => cases composite

theorem target_reads (hold : RulesRead rules size) (holds : expr.Everywhere legible)
    (small : expr.lexemes.length ≤ size) (binds : expr.Binds Precedence.call) (op : AssignOp) :
    expr.ReadBy Expr.atStart (conditional rules) (.mark op.mark :: rest) := by
  have continues : (nextKind (.mark op.mark :: rest)).continues = Precedence.assignment :=
    op.continues_mark
  have read : expr.ReadBy Expr.anywhere (conditional rules) (.mark op.mark :: rest) := by
    refine conditional_pass (binary_reads hold holds small (binds.mono (by decide)) ?_) ?_
    · rw [continues]
      decide
    · rw [continues]
      decide
  exact fun state facing clear _ => read state facing clear trivial

theorem assignment_reads (hold : RulesRead rules size) (holds : expr.Everywhere legible)
    (small : expr.lexemes.length ≤ size) (binds : expr.Binds Precedence.assignment)
    (stops : (nextKind rest).continues < Precedence.assignment) :
    expr.ReadBy Expr.anywhere (assignment rules) rest := by
  rcases binds.assignment_or holds.1 with ⟨loc, op, target, value, rfl⟩ |
    ⟨loc, pattern, value, rfl⟩ | ⟨loc, params, body, rfl⟩ | binds
  · rw [Expr.lexemes, List.length_append, List.length_cons] at small
    refine assignment_of_parts (target_reads hold holds.2.1 (by omega) holds.1.1.2.toBinds op)
      (readBefore_assign hold holds (by omega) stops) (by rw [Expr.lexemes])
  · rw [Expr.lexemes, List.length_append, List.length_cons, ← pattern.lexemes_cover] at small
    refine assignment_of_parts (target_reads hold (pattern.legible_cover holds.2.1) (by omega)
      (precedence_cover_composite holds.1.2.1) .plain)
      (readBefore_destructure hold holds (by omega) stops) ?_
    rw [Expr.lexemes, pattern.lexemes_cover]
    rfl
  · have read := conditional_arrow hold holds small stops
    exact assignment_of_parts read (readBefore_nothing stops) (List.append_nil _).symm
  · have read := conditional_reads hold holds small binds stops
    exact assignment_of_parts (fun state facing clear _ => read state facing clear trivial)
      (readBefore_nothing stops) (List.append_nil _).symm

/-! ## The grammar -/

theorem rules_read (depth : Nat) : RulesRead (Parse.rules depth) depth := by
  induction depth with
  | zero => exact ⟨nofun, nofun, nofun, nofun⟩
  | succ depth induction =>
      refine ⟨?_, ?_, ?_, ?_⟩
      · intro expr rest holds small binds stops
        exact assignment_reads induction holds (Nat.le_of_lt_succ small) binds stops
      · intro expr rest holds small binds stops
        exact exponent_reads induction holds (Nat.le_of_lt_succ small) binds stops
      · intro expr rest holds small binds stops
        exact unary_reads induction holds (Nat.le_of_lt_succ small) binds stops
      · intro loc callee arguments rest holds small
        exact construction_reads induction holds (Nat.le_of_lt_succ small)

theorem program_reads {depth : Nat} (holds : expr.Everywhere legible)
    (small : expr.lexemes.length < depth) (settles : expr.Settles Precedence.sequence)
    (facing : state.Facing expr.lexemes) :
    Achieves (program depth) state fun found _ => found.erase = expr.erase := by
  rw [← List.append_nil expr.lexemes] at facing
  refine .bind ((expression_reads (rules_read depth) holds small settles facing
    Nat.zero_lt_one).mono ?_)
  intro found after holds
  have kind : after.lookahead.kind = .endOfInput := holds.2.facing.kind nofun
  exact kind_then (.iteFalse (by simp [kind]) (.pure holds.1))

end Parse

theorem parse_of_lexes {source : String} {expr : Expr}
    (lexes : Lexes [] source.toList expr.lexemes) (holds : expr.Everywhere legible)
    (settles : expr.Settles Precedence.sequence) :
    ∃ found, parse source = .ok found ∧ found.erase = expr.erase := by
  rcases lexes with ⟨short, scans⟩
  rcases scans (Scanner.ofString source) (Scanner.placed_ofString source) rfl rfl with
    ⟨lookahead, scanner, run, ahead⟩
  let state : ParserState := { scanner, lookahead, previousEnd := lookahead.span.start, strict := false }
  have facing : state.Facing expr.lexemes := ⟨ahead, rfl, rfl⟩
  have small : expr.lexemes.length < source.length + 1 := Nat.lt_succ_of_le short
  rcases Parse.program_reads holds small settles facing with ⟨found, after, parsed, same⟩
  exact ⟨found, parse_of_program run parsed, same⟩

end ExprScript
