import ExprScript.Proofs.Grammar.Climb
import ExprScript.Proofs.Reading.Chain

/-! # Reading operators

An expression that has no operator of a level passes through it. Binary operators are
climbed by precedence: what waits on the stacks reduces to the expression as soon as
an operator follows that does not bind tighter.
-/

namespace ExprScript

open Scanner ParserState

theorem UnaryOp.lexeme_ne_regExp (op : UnaryOp) : op.lexeme.1 ≠ .regExpLiteral := by
  cases op <;> nofun

theorem UnaryOp.unaryOp?_lexeme (op : UnaryOp) : Parse.unaryOp? op.lexeme.1 = some op := by
  cases op <;> rfl

theorem UpdateOp.updateOp?_mark (op : UpdateOp) :
    Parse.updateOp? (.punctuator op.mark) = some op := by
  cases op <;> rfl

theorem UpdateOp.unaryOp?_mark (op : UpdateOp) : Parse.unaryOp? (.punctuator op.mark) = none := by
  cases op <;> rfl

theorem UpdateOp.continues_mark (op : UpdateOp) :
    (TokenKind.punctuator op.mark).continues = Precedence.postfixed := by
  cases op <;> rfl

theorem TokenKind.no_operator_of_startsChain {kind : TokenKind} (starts : kind.startsChain = true) :
    Parse.unaryOp? kind = none ∧ Parse.updateOp? kind = none := by
  cases kind with
  | punctuator mark => cases mark <;> first | exact ⟨rfl, rfl⟩ | cases starts
  | keyword word => cases word <;> first | exact ⟨rfl, rfl⟩ | cases starts
  | _ => exact ⟨rfl, rfl⟩

namespace Parse

variable {β : Type} {state : ParserState} {post : β → ParserState → Prop}
  {rest : List Lexeme} {rules : Rules} {size : Nat} {expr : Expr} {pre : ParserState → Prop}

/-! ## Unary operators -/

theorem postfixed_pass (read : expr.ReadBy pre (chain rules) rest)
    (stops : (nextKind rest).continues < Precedence.postfixed) :
    expr.ReadBy pre (postfixed rules) rest := by
  intro state facing clear holds
  refine start_then (.bind ((read.inherited state facing clear holds).mono ?_))
  intro found after holds
  have known := TokenKind.notRegExp_of_continues (Nat.lt_trans stops (by decide))
  refine lookahead_then ?_
  rw [holds.2.facing.kind known, TokenKind.update_none stops]
  exact .pure holds

theorem postfixed_update (hold : RulesRead rules size) {loc : Span} {op : UpdateOp}
    {argument : Expr} (holds : (Expr.update loc op .after argument).Everywhere legible)
    (small : (Expr.update loc op .after argument).lexemes.length ≤ size) :
    (Expr.update loc op .after argument).ReadBy Expr.anywhere (postfixed rules) rest := by
  intro state facing clear _
  rcases holds with ⟨⟨isTarget, settles⟩, inside⟩
  rw [Expr.lexemes, List.length_append] at small
  rw [Expr.lexemes, List.append_assoc] at facing
  have stops : (nextKind ([.mark op.mark] ++ rest)).continues < Precedence.call := by
    change (TokenKind.punctuator op.mark).continues < _
    rw [op.continues_mark]
    decide
  have read := chain_reads hold inside (Nat.le_of_add_right_le small) settles.toBinds stops
  refine start_then (.bind ((read.inherit facing).mono ?_))
  intro found middle holds
  rcases holds with ⟨same, reaches⟩
  have isTarget' : found.isSimpleTarget = true := by
    rw [← found.isSimpleTarget_erase, same, argument.isSimpleTarget_erase, isTarget]
  have facing' : middle.Facing (.mark op.mark :: rest) := reaches.facing
  refine lookahead_then ?_
  rw [facing'.mark, op.updateOp?_mark]
  refine .iteFalse (by simp [facing'.sameLine]) (.iteFalse (by simp [isTarget']) ?_)
  refine advance_then facing' nofun fun after _ reaches' => spanFrom_then fun loc => .pure ⟨?_, ?_⟩
  · rw [Expr.erase, Expr.erase, same]
  · exact ((reaches.mono fun _ => settles.settled).andThen reaches').mono fun _ => trivial

theorem unary_pass (read : expr.ReadBy pre (postfixed rules) rest)
    (noOperator : ∀ state : ParserState, state.Facing (expr.lexemes ++ rest) →
      unaryOp? state.lookahead.kind = none ∧ updateOp? state.lookahead.kind = none) :
    expr.ReadBy pre (unary rules) rest := by
  intro state facing clear holds
  rcases noOperator state facing with ⟨noUnary, noUpdate⟩
  refine start_then (kind_then ?_)
  rw [noUnary, noUpdate]
  exact read state facing clear holds

theorem no_operator_of_binds (holds : expr.Everywhere legible)
    (binds : expr.Binds Precedence.postfixed) (facing : state.Facing (expr.lexemes ++ rest)) :
    unaryOp? state.lookahead.kind = none ∧ updateOp? state.lookahead.kind = none := by
  rcases expr.opens holds with ⟨-, -, lexeme, others, -, equal, -, -, begins⟩
  have starts := begins.chain binds (Nat.le_refl _)
  rw [equal] at facing
  rcases facing.kind_or with kind | ⟨-, kind | kind⟩
  · rw [kind]
    exact TokenKind.no_operator_of_startsChain starts
  · rw [kind]
    exact ⟨rfl, rfl⟩
  · rw [kind]
    exact ⟨rfl, rfl⟩

theorem unary_reads (hold : RulesRead rules size) (holds : expr.Everywhere legible)
    (small : expr.lexemes.length ≤ size) (binds : expr.Binds Precedence.unary)
    (stops : (nextKind rest).continues < Precedence.unary) :
    expr.ReadBy Expr.anywhere (unary rules) rest := by
  have stops' := Nat.lt_trans stops Precedence.unary_lt_postfixed
  rcases binds.unary_or holds.1 with ⟨loc, op, argument, rfl⟩ | ⟨loc, op, fixity, argument, rfl⟩ |
    binds
  · intro state facing clear _
    rcases holds with ⟨settles, inside⟩
    rw [Expr.lexemes] at small facing
    refine start_then (kind_then ?_)
    rw [facing.kind op.lexeme_ne_regExp, show nextKind _ = op.lexeme.1 from rfl, op.unaryOp?_lexeme]
    refine advance_then facing op.lexeme_ne_regExp fun middle _ reaches => .bind ?_
    refine ((hold.unary inside small settles.toBinds stops).isolate settles.settled
      reaches.facing).mono ?_
    intro found after holds
    refine spanFrom_then fun loc => .pure ⟨?_, (reaches.andThen holds.2).mono fun _ => trivial⟩
    rw [Expr.erase, Expr.erase, holds.1]
  · cases fixity with
    | before =>
        intro state facing clear _
        rcases holds with ⟨⟨isTarget, settles⟩, inside⟩
        rw [Expr.lexemes] at small facing
        refine start_then (kind_then ?_)
        rw [facing.mark, op.unaryOp?_mark, op.updateOp?_mark]
        refine advance_then facing nofun fun middle _ reaches => .bind ?_
        refine ((hold.unary inside small settles.toBinds stops).isolate settles.settled
          reaches.facing).mono ?_
        intro found after holds
        have isTarget' : found.isSimpleTarget = true := by
          rw [← found.isSimpleTarget_erase, holds.1, argument.isSimpleTarget_erase, isTarget]
        refine .iteFalse (by simp [isTarget']) ?_
        refine spanFrom_then fun loc => .pure ⟨?_, (reaches.andThen holds.2).mono fun _ => trivial⟩
        rw [Expr.erase, Expr.erase, holds.1]
    | after =>
        refine unary_pass (postfixed_update hold holds small) fun state facing => ?_
        exact no_operator_of_binds holds ⟨rfl, Nat.le_refl _⟩ facing
  · have read := chain_reads hold holds small binds (Nat.lt_trans stops' (by decide))
    refine unary_pass (postfixed_pass read stops') fun state facing => ?_
    exact no_operator_of_binds holds (binds.mono (by decide)) facing

/-! ## Powers -/

theorem exponent_pass (read : expr.ReadBy pre (unary rules) rest)
    (stops : (nextKind rest).continues < Precedence.exponent) :
    expr.ReadBy pre (exponent rules) rest := by
  intro state facing clear holds
  refine .bind ((read.inherited state facing clear holds).mono ?_)
  intro found after holds
  refine at?_false (Expr.ne_mark_of_facing holds.2.facing stops (Nat.le_refl _)) ?_
  exact .iteTrue rfl (.pure holds)

theorem exponent_reads (hold : RulesRead rules size) (holds : expr.Everywhere legible)
    (small : expr.lexemes.length ≤ size) (binds : expr.Binds Precedence.exponent)
    (stops : (nextKind rest).continues < Precedence.exponent) :
    expr.ReadBy Expr.anywhere (exponent rules) rest := by
  rcases binds.exponent_or holds.1 with ⟨loc, left, right, rfl⟩ | binds
  · intro state facing clear _
    rcases holds with ⟨⟨settles, settles'⟩, inside, inside'⟩
    rw [Expr.lexemes, List.length_append, List.length_cons] at small
    rw [Expr.lexemes, List.append_assoc, List.cons_append] at facing
    have first := unary_reads hold inside (by omega) (settles.toBinds.mono (by decide))
      (show (nextKind (BinaryOp.lexeme (.arithmetic .exp) :: (right.lexemes ++ rest))).continues <
        Precedence.unary from Nat.lt_succ_self _)
    refine .bind ((first.inherit facing).mono ?_)
    intro base middle holds
    rcases holds with ⟨same, reaches⟩
    have facing' : middle.Facing (.mark .starStar :: (right.lexemes ++ rest)) := reaches.facing
    have notUnary : base.kind ≠ .unaryExpression := by
      rw [← base.kind_erase, same, left.kind_erase]
      intro isUnary
      cases left with
      | unary => exact absurd settles.tight (Nat.not_le.mpr Precedence.unary_lt_postfixed)
      | _ => cases isUnary
    refine at?_true facing'.mark (.iteFalse (by simp) (.iteFalse (by simpa using notUnary) ?_))
    refine advance_then facing' nofun fun second _ reaches' => .bind ?_
    refine ((hold.exponent inside' (by omega) settles'.toBinds stops).isolate settles'.settled
      reaches'.facing).mono ?_
    intro power after holds
    refine .pure ⟨?_, ?_⟩
    · rw [Expr.erase, Expr.erase, same, holds.1]
    · refine Reaches.mono ?_ fun _ => trivial
      exact ((reaches.mono fun _ => settles.settled).andThen reaches').andThen holds.2
  · exact exponent_pass (unary_reads hold holds small binds (Nat.lt_succ_of_lt stops)) stops

end Parse

/-! ## Binary operators -/

namespace Climb

def Waits (base : Climb) (expr : Expr) (level : Nat) (climb : Climb) : Prop :=
  ∃ found : Expr, found.erase = expr.erase ∧ ∀ precedence ≤ climbingLevel level,
    reduceFrom precedence climb.operators climb.operands =
      reduceFrom precedence base.operators (found :: base.operands)

def Below (base : Climb) (level : Nat) : Prop :=
  ∀ top ∈ base.operators.head?, top.precedence < climbingLevel level

theorem Below.mono {base : Climb} {low high : Nat} (below : base.Below low) (within : low ≤ high) :
    base.Below high :=
  fun top isTop => Nat.lt_of_lt_of_le (below top isTop) (climbingLevel_le within)

theorem Below.reduceFrom {base : Climb} {level : Nat} (below : base.Below level)
    (operands : List Expr) :
    reduceFrom (climbingLevel level) base.operators operands =
      .ok { operands, operators := base.operators } := by
  cases operators : base.operators with
  | nil => rfl
  | cons top operators =>
      have looser : top.precedence < climbingLevel level := by
        apply below
        rw [operators]
        rfl
      rw [Climb.reduceFrom, if_pos looser]

theorem waits_operand {base : Climb} {found expr : Expr} (same : found.erase = expr.erase)
    (level : Nat) : Waits base expr level (base.push found) :=
  ⟨found, same, fun _ _ => rfl⟩

/-- An operator that does not bind tighter reduces what waits. -/
theorem Waits.shift {base climb : Climb} {left : Expr} {operator : InfixOperator}
    (waits : Waits base left operator.op.precedence climb)
    (below : base.Below operator.op.precedence) :
    ∃ found : Expr, found.erase = left.erase ∧ climb.shift operator.stacked =
      .ok { operands := found :: base.operands,
            operators := operator.stacked :: base.operators } := by
  rcases waits with ⟨found, same, reduces⟩
  refine ⟨found, same, ?_⟩
  have level : operator.stacked.precedence = climbingLevel operator.op.precedence :=
    operator.level_eq
  rw [Climb.shift, level, reduces _ (Nat.le_refl _), below.reduceFrom]
  rfl

theorem Waits.join {base climb : Climb} {left right joined : Expr} {operator : InfixOperator}
    (waits : Waits
      { operands := left :: base.operands, operators := operator.stacked :: base.operators }
      right (operator.op.precedence + 1) climb)
    (joins : ∀ found : Expr, found.erase = right.erase →
      ∃ whole, operator.stacked.join left found = .ok whole ∧ whole.erase = joined.erase) :
    Waits base joined operator.op.precedence climb := by
  rcases waits with ⟨found, same, reduces⟩
  rcases joins found same with ⟨whole, join, same'⟩
  refine ⟨whole, same', fun precedence within => ?_⟩
  have tighter : precedence ≤ operator.stacked.precedence :=
    within.trans_eq operator.level_eq.symm
  rw [reduces precedence (within.trans (climbingLevel_le (Nat.le_succ _))), Climb.reduceFrom,
    if_neg (Nat.not_lt.mpr tighter), reduceTop, join]
  rfl

theorem Waits.mono {base climb : Climb} {expr : Expr} {low high : Nat}
    (waits : Waits base expr high climb) (within : low ≤ high) : Waits base expr low climb := by
  rcases waits with ⟨found, same, reduces⟩
  exact ⟨found, same, fun precedence bound =>
    reduces precedence (Nat.le_trans bound (climbingLevel_le within))⟩

theorem Waits.finish {climb : Climb} {expr : Expr} {level : Nat}
    (waits : Waits { operands := [] } expr level climb) (position : Position) :
    ∃ found : Expr, found.erase = expr.erase ∧ climb.finish position = .ok found := by
  rcases waits with ⟨found, same, reduces⟩
  refine ⟨found, same, ?_⟩
  rw [Climb.finish, reduces 0 (Nat.zero_le _)]
  rfl

end Climb

theorem BinaryOp.ofToken?_lexeme {op : BinaryOp} (notPower : op ≠ .arithmetic .exp) :
    InfixOp.ofToken? op.lexeme.1 = some (.binary op) := by
  cases op with
  | arithmetic op =>
      cases op with
      | exp => exact absurd rfl notPower
      | _ => rfl
  | _ => rfl

theorem LogicalOp.ofToken?_mark (op : LogicalOp) :
    InfixOp.ofToken? (.punctuator op.mark) = some (.logical op) := by
  cases op <;> rfl

theorem InfixOp.ne_regExp_of_ofToken? {kind : TokenKind} {op : InfixOp}
    (isInfix : InfixOp.ofToken? kind = some op) : kind ≠ .regExpLiteral := by
  intro isRegExp
  rw [isRegExp] at isInfix
  cases isInfix

namespace Parse

variable {β : Type} {state : ParserState} {post : β → ParserState → Prop}
  {rest : List Lexeme} {rules : Rules} {size : Nat} {expr : Expr} {pre : ParserState → Prop}

/-- After the first operand of the expression, the rounds for its operators read the
tokens behind it. -/
structure Climbs (rules : Rules) (first : Expr) (tokens : List Lexeme) (expr : Expr) (level : Nat)
    (rest : List Lexeme) : Prop where
  lexemes : expr.lexemes = first.lexemes ++ tokens
  hasInitializer : first.hasInitializer = expr.hasInitializer
  rounds : ∀ (base : Climb) (found : Expr) (state : ParserState), base.Below level →
    found.erase = first.erase → state.Facing (tokens ++ rest) →
    ∃ count climb after, Rounds (climbRound rules) count (base.push found) state climb after ∧
      count ≤ tokens.length ∧ Climb.Waits base expr level climb ∧ state.Reaches rest True after

theorem climbs_single (expr : Expr) (level : Nat) (rest : List Lexeme) :
    Climbs rules expr [] expr level rest := by
  refine ⟨(List.append_nil _).symm, rfl, fun base found state _ same facing => ?_⟩
  exact ⟨0, base.push found, state, .none, Nat.le_refl _, Climb.waits_operand same level,
    facing.reaches⟩

theorem Climbs.mono {first : Expr} {tokens : List Lexeme} {low high : Nat}
    (climbs : Climbs rules first tokens expr high rest) (within : low ≤ high) :
    Climbs rules first tokens expr low rest := by
  refine ⟨climbs.lexemes, climbs.hasInitializer, fun base found state below same facing => ?_⟩
  rcases climbs.rounds base found state (below.mono within) same facing with
    ⟨count, climb, after, rounds, room, waits, reaches⟩
  exact ⟨count, climb, after, rounds, room, waits.mono within, reaches⟩

/-- An operator is read after its left operand, and before its right one. -/
theorem Climbs.infixed {op : InfixOp} {operator : Lexeme} {left right first second : Expr}
    {tokens tokens' : List Lexeme} (isInfix : InfixOp.ofToken? operator.1 = some op)
    (equal : expr.lexemes = left.lexemes ++ operator :: right.lexemes)
    (noInitializer : left.hasInitializer = false ∧ right.hasInitializer = false ∧
      expr.hasInitializer = false)
    (joins : ∀ (position : Position) (left' right' : Expr), left'.erase = left.erase →
      right'.erase = right.erase →
      ∃ whole, (InfixOperator.mk operator.1 op position isInfix).stacked.join left' right' =
        .ok whole ∧ whole.erase = expr.erase)
    (leftClimbs : Climbs rules first tokens left op.precedence
      (operator :: (right.lexemes ++ rest)))
    (rightClimbs : Climbs rules second tokens' right (op.precedence + 1) rest)
    (read : second.ReadBy Expr.anywhere (exponent rules) (tokens' ++ rest)) :
    Climbs rules first (tokens ++ operator :: right.lexemes) expr op.precedence rest := by
  rcases noInitializer with ⟨leftSettled, rightSettled, settled⟩
  refine ⟨?_, ?_, fun base found state below same facing => ?_⟩
  · rw [equal, leftClimbs.lexemes, List.append_assoc]
  · rw [leftClimbs.hasInitializer, leftSettled, settled]
  · rw [List.append_assoc, List.cons_append] at facing
    rcases leftClimbs.rounds base found state below same facing with
      ⟨count, climb, middle, rounds, room, waits, reaches⟩
    have known := InfixOp.ne_regExp_of_ofToken? isInfix
    have kind : middle.lookahead.kind = operator.1 := reaches.facing.kind known
    let waiting : InfixOperator := ⟨operator.1, op, middle.lookahead.span.start, isInfix⟩
    rcases @Climb.Waits.shift base climb left waiting waits below with ⟨left', same', shift⟩
    have step : Achieves (climbRound rules climb) middle fun outcome after =>
        ∃ operand, outcome = .again (Climb.push
          { operands := left' :: base.operands,
            operators := waiting.stacked :: base.operators }
          operand) ∧ operand.erase = second.erase ∧
          middle.Reaches (tokens' ++ rest) True after := by
      refine kind_then ?_
      rw [kind]
      refine .iteFalse (InfixOp.ne_zero_of_token isInfix) ?_
      refine start_then (ofExcept_then shift (advance_then reaches.facing known ?_))
      intro third _ reaches'
      have facing' := reaches'.facing
      rw [rightClimbs.lexemes, List.append_assoc] at facing'
      refine .bind ((read.isolate (rightClimbs.hasInitializer.trans rightSettled) facing').mono ?_)
      intro operand after holds
      exact .pure ⟨operand, rfl, holds.1, reaches'.andThen holds.2⟩
    rcases step with ⟨outcome, third, run, operand, rfl, same'', reaches'⟩
    have below' : Climb.Below
        { operands := left' :: base.operands, operators := waiting.stacked :: base.operators }
        (op.precedence + 1) := by
      intro top isTop
      cases isTop
      have level : waiting.stacked.precedence = climbingLevel op.precedence := waiting.level_eq
      rw [level]
      exact climbingLevel_lt (Nat.le_of_succ_le op.nullishOr_le) (Nat.lt_succ_self _)
    rcases rightClimbs.rounds _ operand third below' same'' reaches'.facing with
      ⟨count', climb', after, rounds', room', waits', reaches''⟩
    refine ⟨count + (count' + 1), climb', after, rounds.trans (.one run rounds'), ?_, ?_, ?_⟩
    · rw [List.length_append, List.length_cons, rightClimbs.lexemes, List.length_append]
      omega
    · exact waits'.join fun right' same => joins _ left' right' same' same
    · exact reaches.andThen (reaches'.andThen reaches'')

/-- The first operand of an expression, and the rounds that read what follows it. -/
theorem exists_climbs (hold : RulesRead rules size) {level : Nat}
    (holds : expr.Everywhere legible) (small : expr.lexemes.length ≤ size)
    (binds : expr.Binds level) (low : Precedence.nullishOr ≤ level)
    (stops : (nextKind rest).continues < Precedence.exponent) :
    ∃ first tokens, Climbs rules first tokens expr level rest ∧
      first.ReadBy Expr.anywhere (exponent rules) (tokens ++ rest) := by
  induction length : expr.lexemes.length using Nat.strong_induction_on
    generalizing expr level rest with
  | h length induction =>
  rcases (binds.mono low).nullishOr_or holds.1 with ⟨loc, op, left, right, rfl, notPower⟩ |
    ⟨loc, op, left, right, rfl⟩ | binds'
  · rcases holds with ⟨holds, inside, inside'⟩
    have holds : (Expr.binary loc op left right).Legible := holds
    rw [Expr.Legible, if_neg notPower] at holds
    rcases holds with ⟨settles, settles'⟩
    have isInfix := BinaryOp.ofToken?_lexeme notPower
    have stops' : (nextKind (op.lexeme :: (right.lexemes ++ rest))).continues <
        Precedence.exponent := by
      change op.lexeme.1.continues < _
      rw [TokenKind.continues_of_infixOp isInfix]
      exact BinaryOp.precedence_lt_exponent notPower
    have low' := op.nullishOr_le
    rw [Expr.lexemes, List.length_append, List.length_cons] at small length
    rcases induction left.lexemes.length (by omega) inside (by omega) settles.toBinds low' stops' rfl
      with ⟨first, tokens, climbs, read⟩
    rcases induction right.lexemes.length (by omega) inside' (by omega) settles'.toBinds
      (Nat.le_succ_of_le low') stops rfl with ⟨second, tokens', climbs', read'⟩
    have whole : Climbs rules first (tokens ++ op.lexeme :: right.lexemes)
        (.binary loc op left right) op.precedence rest := by
      refine Climbs.infixed isInfix (by rw [Expr.lexemes])
        ⟨settles.settled, settles'.settled, rfl⟩ ?_ climbs climbs' read'
      intro position left' right' same same'
      exact ⟨_, InfixOperator.join_stacked _ _ _, by rw [Expr.erase, Expr.erase, same, same']⟩
    refine ⟨first, _, whole.mono binds.tight, ?_⟩
    rwa [List.append_assoc, List.cons_append]
  · rcases holds with ⟨⟨⟨settles, noConflict⟩, settles', noConflict'⟩, inside, inside'⟩
    have stops' : (nextKind (.mark op.mark :: (right.lexemes ++ rest))).continues <
        Precedence.exponent := by
      change (TokenKind.punctuator op.mark).continues < _
      rw [TokenKind.continues_of_infixOp op.ofToken?_mark]
      exact op.precedence_lt_exponent
    have low' := op.nullishOr_le
    rw [Expr.lexemes, List.length_append, List.length_cons] at small length
    rcases induction left.lexemes.length (by omega) inside (by omega) settles.toBinds low' stops' rfl
      with ⟨first, tokens, climbs, read⟩
    rcases induction right.lexemes.length (by omega) inside' (by omega) settles'.toBinds
      (Nat.le_succ_of_le low') stops rfl with ⟨second, tokens', climbs', read'⟩
    have whole : Climbs rules first (tokens ++ .mark op.mark :: right.lexemes)
        (.logical loc op left right) op.precedence rest := by
      refine @Climbs.infixed _ _ _ (.logical op) (.mark op.mark) left right _ _ _ _
        op.ofToken?_mark (by rw [Expr.lexemes]) ⟨settles.settled, settles'.settled, rfl⟩ ?_ climbs
        climbs' read'
      intro position left' right' same same'
      have mixed : (op.conflictsWith left' || op.conflictsWith right') = false := by
        rw [← Expr.conflictsWith_erase op left', ← Expr.conflictsWith_erase op right', same, same',
          Expr.conflictsWith_erase, Expr.conflictsWith_erase, noConflict, noConflict']
        rfl
      refine ⟨.logical (left'.loc.join right'.loc) op left' right', ?_, ?_⟩
      · rw [InfixOperator.join_stacked]
        exact if_neg (by simp [mixed])
      · rw [Expr.erase, Expr.erase, same, same']
    refine ⟨first, _, whole.mono binds.tight, ?_⟩
    rwa [List.append_assoc, List.cons_append]
  · exact ⟨expr, [], climbs_single expr level rest, exponent_reads hold holds small binds' stops⟩

theorem binary_climbed {first : Expr} {tokens : List Lexeme} {level : Nat}
    (climbs : Climbs rules first tokens expr level rest)
    (read : first.ReadBy pre (exponent rules) (tokens ++ rest))
    (stops : (nextKind rest).continues < Precedence.nullishOr) :
    expr.ReadBy pre (binary rules) rest := by
  intro state facing clear holds
  rw [climbs.lexemes, List.append_assoc] at facing
  refine .bind ((read.inherited state facing clear holds).mono ?_)
  intro found middle holds
  rcases holds with ⟨same, reaches⟩
  rcases climbs.rounds { operands := [] } found middle nofun same reaches.facing with
    ⟨count, climb, after, rounds, room, waits, reaches'⟩
  have known := TokenKind.notRegExp_of_continues (Nat.lt_trans stops (by decide))
  refine .bind (loop_achieves reaches.facing ?_ rounds (kind_then ?_))
  · rw [List.length_append]
    omega
  · rw [reaches'.facing.kind known]
    refine .iteTrue (TokenKind.infix_none stops) (.pure (.get ?_))
    rcases waits.finish after.previousEnd with ⟨result, same', finish⟩
    rw [finish]
    refine .pure ⟨same', (reaches.afterwards reaches').mono fun calm => ?_⟩
    rw [climbs.hasInitializer, calm]

theorem binary_reads (hold : RulesRead rules size) (holds : expr.Everywhere legible)
    (small : expr.lexemes.length ≤ size) (binds : expr.Binds Precedence.nullishOr)
    (stops : (nextKind rest).continues < Precedence.nullishOr) :
    expr.ReadBy Expr.anywhere (binary rules) rest := by
  rcases exists_climbs hold holds small binds (Nat.le_refl _) (Nat.lt_trans stops (by decide)) with
    ⟨first, tokens, climbs, read⟩
  exact binary_climbed climbs read stops

end Parse

end ExprScript
