import ExprScript.Proofs.Climb.Tree
import ExprScript.Proofs.Grammar.Expression
import ExprScript.Proofs.Span.Expression

/-! # Climbing the operators

The operands and the operators between them are read one after the other. The loop of the
parser keeps the ordered tree over what has been read on its stacks, unless the nullish
operator is mixed with another one.
-/

namespace ExprScript

open ParserState

/-- What holds of every state that parsing comes through. -/
structure ParserState.Reached (source : List Char) (state : ParserState) : Prop where
  sound : state.Sound
  located : state.Located source

theorem reached_start {source : String} {lookahead : Token} {scanner : Scanner}
    (run : Scanner.next (.ofString source) = .ok lookahead scanner) (strict : Bool) :
    ParserState.Reached source.toList
      { scanner, lookahead, previousEnd := lookahead.span.start, strict } :=
  ⟨⟨⟨_, Scanner.placed_ofString source, run⟩, Nat.zero_le _⟩, start_located run strict⟩

/-! ## The characters ahead -/

def charsFrom (source : List Char) (offset : Nat) : Nat := (dropBytes offset source).length

theorem charsFrom_behind {passed rest : List Char} :
    charsFrom (passed ++ rest) (byteSize passed) = rest.length := by
  rw [charsFrom, dropBytes_append]

theorem charsFrom_lt {source : List Char} {first second : Position} (marks : first.Marks source)
    (marks' : second.Marks source) (before : first.offset < second.offset) :
    charsFrom source second.offset < charsFrom source first.offset := by
  rcases marks with ⟨passed, rest, text, rfl⟩
  rcases marks' with ⟨passed', rest', text', rfl⟩
  have before : byteSize passed < byteSize passed' := before
  have chars : charsFrom source (byteSize passed) = rest.length := text ▸ charsFrom_behind
  have chars' : charsFrom source (byteSize passed') = rest'.length := text' ▸ charsFrom_behind
  have same : passed ++ rest = passed' ++ rest' := text.symm.trans text'
  change charsFrom source (byteSize passed') < charsFrom source (byteSize passed)
  rw [chars, chars']
  rcases List.append_eq_append_iff.mp same with ⟨between, rfl, rfl⟩ | ⟨between, rfl, rfl⟩
  · cases between with
    | nil => exact absurd before (by simp)
    | cons c between => simp
  · rw [byteSize_append] at before
    omega

theorem charsFrom_cursor {source : List Char} {cursor : Cursor} (located : cursor.Located source) :
    charsFrom source cursor.position.offset = cursor.rest.length := by
  rcases located with ⟨passed, text, position, -⟩
  rw [text, position]
  exact charsFrom_behind

/-- The operator that is next. -/
def ParserState.operator (state : ParserState) {op : InfixOp}
    (isOperator : InfixOp.ofToken? state.lookahead.kind = some op) : InfixOperator :=
  { kind := state.lookahead.kind, op, position := state.lookahead.span.start, found := isOperator }

namespace Parse

/-! ## Reading operands -/

inductive Operands (rules : Rules) :
    ParserState → List (InfixOperator × Expr) → ParserState → Prop
  | nil {state : ParserState} : Operands rules state [] state
  | cons {state middle after last : ParserState} {op : InfixOp} {token : Token} {operand : Expr}
      {rest : List (InfixOperator × Expr)}
      (isOperator : InfixOp.ofToken? state.lookahead.kind = some op)
      (uses : advance state = .ok token middle)
      (reads : isolate (exponent rules) middle = .ok operand after)
      (later : Operands rules after rest last) :
      Operands rules state ((state.operator isOperator, operand) :: rest) last

/-- A first operand has been read, and operators with an operand behind each of them. -/
def ReadsOperands (rules : Rules) (before : ParserState) (first : Expr)
    (rest : List (InfixOperator × Expr)) (last : ParserState) : Prop :=
  ∃ opened, inherit (exponent rules) before = .ok first opened ∧ Operands rules opened rest last

def OperandFails (rules : Rules) (state : ParserState) (error : Error) : Prop :=
  ∃ op, InfixOp.ofToken? state.lookahead.kind = some op ∧
    ((∃ after, advance state = .error error after) ∨
      ∃ token middle after, advance state = .ok token middle ∧
        isolate (exponent rules) middle = .error error after)

variable {source : List Char} {depth : Nat} {before state middle after last : ParserState}
  {first operand : Expr} {rest : List (InfixOperator × Expr)}

theorem notLogical_of_fits {expr : Expr} (fits : expr.Fits Precedence.exponent) :
    expr.kind ≠ .logicalExpression := by
  intro isLogical
  cases expr with
  | logical loc op left right =>
      rcases fits with fits | isInfinite
      · exact absurd op.precedence_lt_exponent (Nat.not_lt.mpr fits)
      · cases isInfinite
  | _ => cases isLogical

theorem firstOperand_reached (reached : before.Reached source)
    (reads : inherit (exponent (Parse.rules depth)) before = .ok first after) :
    after.Reached source ∧ first.kind ≠ .logicalExpression := by
  have level := (exponent_ensures (rules_hold depth)).inherited before reached.sound _ _ reads
  have spans := inherit_spans (exponent_spans (rules_span source depth)) before reached.located
  rcases level with ⟨moves, -, ⟨-, ranks⟩, -⟩
  refine ⟨⟨moves.sound, (spans.ensures _ _ reads).goes.located⟩, ?_⟩
  rcases ranks with fits | ⟨isArrow, -⟩
  · exact notLogical_of_fits fits
  · rw [isArrow]
    nofun

/-- An operand behind an operator is read behind the place that the scanner has come to. -/
theorem operand_reached (reached : state.Reached source) {op : InfixOp} {token : Token}
    (isOperator : InfixOp.ofToken? state.lookahead.kind = some op)
    (uses : advance state = .ok token middle)
    (reads : isolate (exponent (Parse.rules depth)) middle = .ok operand after) :
    after.Reached source ∧ operand.kind ≠ .logicalExpression ∧ state.offset < after.offset ∧
      state.scanner.cursor.position.offset < after.offset := by
  rcases reached with ⟨sound, located⟩
  have notEnd : state.lookahead.kind ≠ .endOfInput := by
    intro isEnd
    rw [isEnd] at isOperator
    cases isOperator
  rcases advance_ensures sound _ _ uses with ⟨-, passes, further⟩
  have begins : state.offset ≤ state.scanner.cursor.position.offset :=
    located.lookahead.start_le_stop.trans located.reached
  rcases advance_placed sound.placed begins sound.begun _ _ uses with ⟨-, -, cursor⟩
  have goes := ((advance_traces located).ensures _ _ uses).2.toGoes
  have behind := behind_of_advance sound passes (further notEnd)
  rcases (exponent_ensures (rules_hold depth)).isolated passes.sound behind _ _ reads with
    ⟨passes', -, -, ranks, -⟩
  have spans := isolate_spans (exponent_spans (rules_span source depth)) middle goes.located
  have read := spans.ensures _ _ reads
  have size := read.offset_lt.trans_le read.goes.located.behind
  refine ⟨⟨passes'.sound, read.goes.located⟩, notLogical_of_fits ranks.fits, ?_, ?_⟩
  · exact (further notEnd).trans size
  · exact cursor.trans_lt size

namespace Operands

theorem length_le (operands : Operands (Parse.rules depth) state rest last)
    (reached : state.Reached source) : rest.length ≤ charsFrom source state.offset := by
  induction operands with
  | nil => exact Nat.zero_le _
  | cons isOperator uses reads later induction =>
      rcases operand_reached reached isOperator uses reads with ⟨reached', -, further, -⟩
      have fewer := charsFrom_lt reached.located.start reached'.located.start further
      exact (induction reached').trans_lt fewer

theorem room (operands : Operands (Parse.rules depth) state rest last)
    (reached : state.Reached source) : rest.length ≤ state.scanner.cursor.rest.length := by
  cases operands with
  | nil => exact Nat.zero_le _
  | cons isOperator uses reads later =>
      rcases operand_reached reached isOperator uses reads with ⟨reached', -, -, further⟩
      have cursor := reached.located.scanner.cursor
      have fewer := charsFrom_lt cursor.marks reached'.located.start further
      rw [charsFrom_cursor cursor] at fewer
      exact (later.length_le reached').trans_lt fewer

theorem reached (operands : Operands (Parse.rules depth) state rest last)
    (reached : state.Reached source) : last.Reached source ∧
      ∀ next ∈ rest, next.2.kind ≠ .logicalExpression := by
  induction operands with
  | nil => exact ⟨reached, List.forall_mem_nil _⟩
  | cons isOperator uses reads later induction =>
      rcases operand_reached reached isOperator uses reads with ⟨reached', notLogical, -⟩
      rcases induction reached' with ⟨final, others⟩
      exact ⟨final, List.forall_mem_cons.mpr ⟨notLogical, others⟩⟩

theorem exists_end (reached : state.Reached source) : ∃ rest last,
    Operands (Parse.rules depth) state rest last ∧
      (InfixOp.ofToken? last.lookahead.kind = none ∨
        ∃ error, OperandFails (Parse.rules depth) last error) := by
  induction chars : charsFrom source state.offset using Nat.strong_induction_on
    generalizing state with
  | h chars induction =>
  cases isOperator : InfixOp.ofToken? state.lookahead.kind with
  | none => exact ⟨[], state, .nil, .inl isOperator⟩
  | some op =>
      cases uses : advance state with
      | error error after =>
          exact ⟨[], state, .nil, .inr ⟨error, op, isOperator, .inl ⟨after, uses⟩⟩⟩
      | ok token middle =>
          cases reads : isolate (exponent (Parse.rules depth)) middle with
          | error error after =>
              exact ⟨[], state, .nil, .inr ⟨error, op, isOperator, .inr ⟨_, _, _, uses, reads⟩⟩⟩
          | ok operand after =>
              rcases operand_reached reached isOperator uses reads with ⟨reached', -, further, -⟩
              have fewer := charsFrom_lt reached.located.start reached'.located.start further
              rcases induction _ (chars ▸ fewer) reached' rfl with ⟨rest, last, later, ends⟩
              exact ⟨_, last, .cons isOperator uses reads later, ends⟩

end Operands

/-! ## The rounds of the loop -/

section

variable {rules : Rules} {climb : Climb}

theorem kind_run (state : ParserState) : kind state = .ok state.lookahead.kind state := rfl

theorem ofExcept_run {α : Type} (value : α) (state : ParserState) :
    (ofExcept (.ok value) : Parse α) state = .ok value state := rfl

theorem climbRound_none (noOperator : InfixOp.ofToken? state.lookahead.kind = none) :
    climbRound rules climb state = .ok (.done climb) state := by
  rw [climbRound, bind_run (kind_run state),
    if_pos ((InfixOp.ofToken?_eq_none_iff _).mp noOperator)]
  rfl

/-- An operator is shifted before its right operand is read. -/
theorem climbRound_some {op : InfixOp}
    (isOperator : InfixOp.ofToken? state.lookahead.kind = some op) :
    climbRound rules climb state = (do
      let shifted ← ofExcept (climb.shift (state.operator isOperator).stacked)
      let _ ← advance
      let operand ← isolate (exponent rules)
      return .again (shifted.push operand) : Parse (Round Climb Climb)) state := by
  rw [climbRound, bind_run (kind_run state), if_neg (InfixOp.ne_zero_of_token isOperator)]
  rfl

theorem climbRound_refused {op : InfixOp} {error : Error}
    (isOperator : InfixOp.ofToken? state.lookahead.kind = some op)
    (refused : climb.shift (state.operator isOperator).stacked = .error error) :
    climbRound rules climb state = .error error state := by
  rw [climbRound_some isOperator, refused]
  rfl

theorem climbRound_shifted {op : InfixOp} {shifted : Climb} {token : Token}
    (isOperator : InfixOp.ofToken? state.lookahead.kind = some op)
    (shift : climb.shift (state.operator isOperator).stacked = .ok shifted)
    (uses : advance state = .ok token middle)
    (reads : isolate (exponent rules) middle = .ok operand after) :
    climbRound rules climb state = .ok (.again (shifted.push operand)) after := by
  rw [climbRound_some isOperator, shift, bind_run (ofExcept_run shifted state), bind_run uses,
    bind_run reads]
  rfl

theorem climbRound_fails {error : Error} (fails : OperandFails rules state error)  :
    ∃ op, ∃ isOperator : InfixOp.ofToken? state.lookahead.kind = some op, ∀ shifted,
      climb.shift (state.operator isOperator).stacked = .ok shifted →
        ∃ after, climbRound rules climb state = .error error after := by
  rcases fails with ⟨op, isOperator, failed⟩
  refine ⟨op, isOperator, fun shifted shift => ?_⟩
  rw [climbRound_some isOperator, shift, bind_run (ofExcept_run shifted state)]
  rcases failed with ⟨after, failed⟩ | ⟨token, middle, after, uses, failed⟩
  · exact ⟨after, bind_failed failed _⟩
  · rw [bind_run uses]
    exact ⟨after, bind_failed failed _⟩

end

/-! ## The stacks in the loop -/

section

open OperatorStack

variable {rules : Rules} {stack : OperatorStack}

theorem Operands.rounds (operands : Operands rules state rest last)
    (plain : Plain (stack.takeAll rest).items) (unmixed : (stack.takeAll rest).mixes = false) :
    Rounds (climbRound rules) rest.length stack.toClimb state (stack.takeAll rest).toClimb
      last := by
  induction operands generalizing stack with
  | nil => exact .none
  | @cons state middle after last op token operand rest isOperator uses reads later induction =>
      have before := unmixed_of_takeAll (_ :: _) unmixed
      have behind := unmixed_of_takeAll rest unmixed
      have shifts := shift_toClimb (Plain.of_takeAll (_ :: _) plain) before
        (state.operator isOperator)
      exact .one (climbRound_shifted isOperator (shifts.ok behind) uses reads)
        (induction plain unmixed)

/-- When operators are mixed, a round before the last operand refuses them. -/
theorem Operands.refused (operands : Operands rules state rest last)
    (plain : Plain (stack.takeAll rest).items) (unmixed : stack.mixes = false)
    (mixed : (stack.takeAll rest).mixes = true) :
    ∃ (count : Nat) (climb : Climb) (middle : ParserState) (pending : InfixOperator),
      count < rest.length ∧ Rounds (climbRound rules) count stack.toClimb state climb middle ∧
        .operator pending ∈ (stack.takeAll rest).items ∧ climbRound rules climb middle =
          .error { cause := .mixedNullish, position := pending.position } middle := by
  induction operands generalizing stack with
  | nil =>
      rw [OperatorStack.takeAll, unmixed] at mixed
      cases mixed
  | @cons state middle after last op token operand rest isOperator uses reads later induction =>
      have shifts := shift_toClimb (Plain.of_takeAll (_ :: _) plain) unmixed
        (state.operator isOperator)
      cases isMixed : (stack.take (state.operator isOperator) operand).mixes with
      | true =>
          rcases shifts.error isMixed with ⟨pending, member, shift⟩
          refine ⟨0, _, state, pending, Nat.zero_lt_succ _, .none, ?_, ?_⟩
          · rw [items_takeAll]
            exact List.mem_append_left _ member
          · exact climbRound_refused isOperator shift
      | false =>
          rcases induction plain isMixed mixed with
            ⟨count, climb, middle, pending, fewer, rounds, member, refused⟩
          have round := climbRound_shifted isOperator (shifts.ok isMixed) uses reads
          exact ⟨count + 1, climb, middle, pending, Nat.succ_lt_succ fewer, .one round rounds,
            member, refused⟩

end

/-! ## The whole loop -/

/-- A loop comes to the round that its rounds lead to. -/
theorem loop_rounds {α β : Type} {round : α → Parse (Round α β)} {count : Nat} {value final : α}
    (rounds : Rounds round count value state final last)
    (room : count ≤ state.scanner.cursor.rest.length) :
    (∀ result after, round final last = .ok (.done result) after →
      loop round value state = .ok result after) ∧
    ∀ error after, round final last = .error error after →
      loop round value state = .error error after := by
  rcases Nat.exists_eq_add_of_le room with ⟨spare, length⟩
  have budget : state.scanner.cursor.rest.length + 2 = count + (spare + 1 + 1) := by omega
  have whole := rounds.repeatWithin_add (do fail .stalledScanner (← start) : Parse β)
    (spare + 1 + 1)
  rw [← budget] at whole
  constructor
  · intro result after run
    exact whole.trans (bind_run run _)
  · intro error after run
    exact whole.trans (bind_failed run _)

section

open OperatorStack

variable {rules : Rules}

theorem binary_run (head : inherit (exponent rules) before = .ok first state) :
    binary rules before = (do
      let climb ← loop (climbRound rules) ({ top := .operand first } : OperatorStack).toClimb
      ofExcept (climb.finish (← get).previousEnd) : Parse Expr) state :=
  bind_run head _

/-- The outcome, once all operands have been read. -/
theorem binary_complete (reached : before.Reached source)
    (reads : ReadsOperands (Parse.rules depth) before first rest last)
    (noOperator : InfixOp.ofToken? last.lookahead.kind = none) :
    ((operatorTree first rest).mixes = false →
      binary (Parse.rules depth) before = .ok (operatorTree first rest).toExpr last) ∧
    ((operatorTree first rest).mixes = true → ∃ pending after,
      .operator pending ∈ infixItems first rest ∧ binary (Parse.rules depth) before =
        .error { cause := .mixedNullish, position := pending.position } after) := by
  rcases reads with ⟨opened, head, operands⟩
  rcases firstOperand_reached reached head with ⟨reached, notLogical⟩
  have room := operands.room reached
  have items : (({ top := .operand first } : OperatorStack).takeAll rest).items =
      infixItems first rest := items_takeAll
  have plain := plain_infixItems notLogical (operands.reached reached).2
  rw [← items] at plain ⊢
  rw [binary_run head]
  cases mixed : (({ top := .operand first } : OperatorStack).takeAll rest).mixes with
  | true =>
      rcases operands.refused plain rfl mixed with
        ⟨count, climb, middle, pending, fewer, rounds, member, refused⟩
      have run := (loop_rounds rounds (fewer.le.trans room)).2 _ _ refused
      have mixes : (operatorTree first rest).mixes = true := mixes_finish 0 (mixes_reduce 0 mixed)
      refine ⟨fun unmixed => ?_, fun _ => ⟨pending, middle, member, bind_failed run _⟩⟩
      rw [mixes] at unmixed
      cases unmixed
  | false =>
      have run := (loop_rounds (operands.rounds plain mixed) room).1 _ _
        (climbRound_none noOperator)
      have finishes := finish_toClimb plain mixed last.previousEnd
      rw [bind_run run]
      constructor
      · intro unmixed
        change ofExcept _ last = _
        rw [finishes.ok unmixed]
        rfl
      · intro mixes
        rcases finishes.error mixes with ⟨pending, member, finish⟩
        refine ⟨pending, last, member, ?_⟩
        change ofExcept _ last = _
        rw [finish]
        rfl

/-- The outcome, if reading an operand fails: operators may have been refused before. -/
theorem binary_incomplete (reached : before.Reached source)
    (reads : ReadsOperands (Parse.rules depth) before first rest last) {error : Error}
    (fails : OperandFails (Parse.rules depth) last error) :
    ∃ failure after, binary (Parse.rules depth) before = .error failure after ∧
      (failure = error ∨ (operatorTree first rest).mixes = true ∧ ∃ pending,
        .operator pending ∈ infixItems first rest ∧
          failure = { cause := .mixedNullish, position := pending.position }) := by
  rcases reads with ⟨opened, head, operands⟩
  rcases firstOperand_reached reached head with ⟨reached, notLogical⟩
  have room := operands.room reached
  have items : (({ top := .operand first } : OperatorStack).takeAll rest).items =
      infixItems first rest := items_takeAll
  have plain := plain_infixItems notLogical (operands.reached reached).2
  rw [← items] at plain ⊢
  rw [binary_run head]
  cases mixed : (({ top := .operand first } : OperatorStack).takeAll rest).mixes with
  | true =>
      rcases operands.refused plain rfl mixed with
        ⟨count, climb, middle, pending, fewer, rounds, member, refused⟩
      have run := (loop_rounds rounds (fewer.le.trans room)).2 _ _ refused
      exact ⟨_, middle, bind_failed run _, .inr
        ⟨mixes_finish 0 (mixes_reduce 0 mixed), pending, member, rfl⟩⟩
  | false =>
      have runs := (loop_rounds (operands.rounds plain mixed) room).2
      rcases climbRound_fails fails with ⟨op, isOperator, failed⟩
      have shifts := shift_toClimb plain mixed (last.operator isOperator)
      cases mixes : (OperatorStack.reduce (last.operator isOperator).level
          (({ top := .operand first } : OperatorStack).takeAll rest).below
          (({ top := .operand first } : OperatorStack).takeAll rest).top).mixes with
      | true =>
          rcases shifts.error mixes with ⟨pending, member, shift⟩
          have run := runs _ _ (climbRound_refused isOperator shift)
          exact ⟨_, last, bind_failed run _, .inr ⟨mixes_finish _ mixes, pending, member, rfl⟩⟩
      | false =>
          rcases failed _ (shifts.ok mixes) with ⟨after, refused⟩
          exact ⟨error, after, bind_failed (runs _ _ refused) _, .inl rfl⟩

/-- The operands are read up to their end, unless one of them fails. -/
theorem binary_cases (depth : Nat) (reached : before.Reached source) :
    (∃ error last, inherit (exponent (Parse.rules depth)) before = .error error last) ∨
    ∃ first rest last, ReadsOperands (Parse.rules depth) before first rest last ∧
      (InfixOp.ofToken? last.lookahead.kind = none ∨
        ∃ error, OperandFails (Parse.rules depth) last error) := by
  cases head : inherit (exponent (Parse.rules depth)) before with
  | error error last => exact .inl ⟨error, last, rfl⟩
  | ok first opened =>
      rcases Operands.exists_end (firstOperand_reached reached head).1 with
        ⟨rest, last, operands, ends⟩
      exact .inr ⟨first, rest, last, ⟨opened, head, operands⟩, ends⟩

/-- What has been read before the loop ends or fails. -/
theorem binary_outcome (depth : Nat) (reached : before.Reached source) :
    match binary (Parse.rules depth) before with
    | .ok _ last => ∃ first rest, ReadsOperands (Parse.rules depth) before first rest last ∧
        InfixOp.ofToken? last.lookahead.kind = none
    | .error error _ =>
        (∃ last, inherit (exponent (Parse.rules depth)) before = .error error last) ∨
        ∃ first rest last, ReadsOperands (Parse.rules depth) before first rest last ∧
          (OperandFails (Parse.rules depth) last error ∨
            ∃ (tree : OperatorTree) (pending : InfixOperator), tree.Orders first rest ∧
              tree.mixes = true ∧ .operator pending ∈ infixItems first rest ∧
              error = { cause := .mixedNullish, position := pending.position }) := by
  rcases binary_cases depth reached with ⟨error, last, head⟩ |
    ⟨first, rest, last, reads, noOperator | ⟨error, fails⟩⟩
  · rw [show binary (Parse.rules depth) before = .error error last from bind_failed head _]
    exact .inl ⟨last, head⟩
  · rcases binary_complete reached reads noOperator with ⟨whenOrdered, whenMixed⟩
    cases mixes : (operatorTree first rest).mixes with
    | false =>
        rw [whenOrdered mixes]
        exact ⟨first, rest, reads, noOperator⟩
    | true =>
        rcases whenMixed mixes with ⟨pending, after, member, refused⟩
        rw [refused]
        exact .inr ⟨first, rest, last, reads, .inr
          ⟨_, pending, operatorTree_orders first rest, mixes, member, rfl⟩⟩
  · rcases binary_incomplete reached reads fails with ⟨failure, after, refused, either⟩
    rw [refused]
    rcases either with rfl | ⟨mixes, pending, member, equal⟩
    · exact .inr ⟨first, rest, last, reads, .inl fails⟩
    · exact .inr ⟨first, rest, last, reads, .inr
        ⟨_, pending, operatorTree_orders first rest, mixes, member, equal⟩⟩

end

/-- Operands and operators, all of which can be read, are joined to the ordered tree over
them. If it mixes the nullish operator with another logical one, there is an error at an
operator instead. Nothing else fails but the reading of an operand. -/
theorem binary_orders (depth : Nat) (reached : before.Reached source) :
    (∀ first rest last, ReadsOperands (Parse.rules depth) before first rest last →
      InfixOp.ofToken? last.lookahead.kind = none →
      ∃ tree : OperatorTree, tree.Orders first rest ∧
        (tree.mixes = false → binary (Parse.rules depth) before = .ok tree.toExpr last) ∧
        (tree.mixes = true → ∃ pending after, .operator pending ∈ infixItems first rest ∧
          binary (Parse.rules depth) before =
            .error { cause := .mixedNullish, position := pending.position } after)) ∧
    (∀ expr last, binary (Parse.rules depth) before = .ok expr last →
      ∃ first rest, ReadsOperands (Parse.rules depth) before first rest last ∧
        InfixOp.ofToken? last.lookahead.kind = none) ∧
    (∀ error after, binary (Parse.rules depth) before = .error error after →
      (∃ last, inherit (exponent (Parse.rules depth)) before = .error error last) ∨
      ∃ first rest last, ReadsOperands (Parse.rules depth) before first rest last ∧
        (OperandFails (Parse.rules depth) last error ∨
          ∃ (tree : OperatorTree) (pending : InfixOperator), tree.Orders first rest ∧
            tree.mixes = true ∧ .operator pending ∈ infixItems first rest ∧
            error = { cause := .mixedNullish, position := pending.position })) := by
  have outcome := binary_outcome depth reached
  refine ⟨?_, ?_, ?_⟩
  · intro first rest last reads noOperator
    exact ⟨operatorTree first rest, operatorTree_orders first rest,
      binary_complete reached reads noOperator⟩
  · intro expr last run
    rwa [run] at outcome
  · intro error after run
    rwa [run] at outcome

def namesBehind (rules : Rules) : Nat → ParserState → Option (List (InfixOperator × Ident))
  | 0, _ => none
  | budget + 1, state =>
    match isOperator : InfixOp.ofToken? state.lookahead.kind with
    | none => some []
    | some _ =>
      match advance state with
      | .error .. => none
      | .ok _ middle =>
        match isolate (exponent rules) middle with
        | .ok (.ident id) after =>
          (namesBehind rules budget after).map ((state.operator isOperator, id) :: ·)
        | _ => none

theorem operands_of_namesBehind {rules : Rules} {budget : Nat}
    {names : List (InfixOperator × Ident)} (found : namesBehind rules budget state = some names) :
    ∃ last, Operands rules state (names.map fun (operator, id) => (operator, .ident id)) last ∧
      InfixOp.ofToken? last.lookahead.kind = none := by
  induction budget generalizing state names with
  | zero => cases found
  | succ budget induction =>
      unfold namesBehind at found
      split at found
      · next noOperator =>
          cases found
          exact ⟨state, .nil, noOperator⟩
      · next op isOperator =>
          split at found
          · cases found
          · next token middle uses =>
              split at found
              · next id after reads =>
                  rcases Option.map_eq_some_iff.mp found with ⟨others, later, rfl⟩
                  rcases induction later with ⟨last, operands, noOperator⟩
                  exact ⟨last, .cons isOperator uses reads operands, noOperator⟩
              · cases found

def namedOperands (source : String) : Option (Ident × List (InfixOperator × Ident)) :=
  match Scanner.next (.ofString source) with
  | .error .. => none
  | .ok lookahead scanner =>
    match inherit (exponent (Parse.rules 1))
      { scanner, lookahead, previousEnd := lookahead.span.start, strict := false } with
    | .ok (.ident first) opened =>
      (namesBehind (Parse.rules 1) source.length opened).map (first, ·)
    | _ => none

theorem readsOperands_of_namedOperands {source : String} {id : Ident}
    {names : List (InfixOperator × Ident)} (found : namedOperands source = some (id, names)) :
    ∃ before last, before.Reached source.toList ∧
      ReadsOperands (Parse.rules 1) before (.ident id)
        (names.map fun (operator, id) => (operator, .ident id)) last ∧
      InfixOp.ofToken? last.lookahead.kind = none := by
  unfold namedOperands at found
  split at found
  · cases found
  · next lookahead scanner run =>
      split at found
      · next first opened head =>
          rcases Option.map_eq_some_iff.mp found with ⟨others, later, equal⟩
          cases equal
          rcases operands_of_namesBehind later with ⟨last, operands, noOperator⟩
          exact ⟨_, last, reached_start run false, ⟨opened, head, operands⟩, noOperator⟩
      · cases found

theorem binary_orders_difference :
    let name (offset : Nat) (column : UInt32) (name : String) : Ident :=
      { loc := { start := { offset, line := 1, column },
                 stop := { offset := offset + 1, line := 1, column := column + 1 } }, name }
    let a := Expr.ident (name 0 1 "a")
    let b := Expr.ident (name 4 5 "b")
    let c := Expr.ident (name 8 9 "c")
    let minus : InfixOperator :=
      { kind := .punctuator .minus, op := .binary (.arithmetic .sub),
        position := { offset := 2, line := 1, column := 3 }, found := rfl }
    let times : InfixOperator :=
      { kind := .punctuator .star, op := .binary (.arithmetic .mul),
        position := { offset := 6, line := 1, column := 7 }, found := rfl }
    let tree : OperatorTree := .node minus (.operand a) (.node times (.operand b) (.operand c))
    ∃ before last : ParserState, before.Reached "a - b * c".toList ∧
      ReadsOperands (Parse.rules 1) before a [(minus, b), (times, c)] last ∧
      tree.Orders a [(minus, b), (times, c)] ∧
      binary (Parse.rules 1) before = .ok tree.toExpr last := by
  intro name a b c minus times tree
  have found : namedOperands "a - b * c" =
      some (name 0 1 "a", [(minus, name 4 5 "b"), (times, name 8 9 "c")]) := by
    decide +kernel
  rcases readsOperands_of_namedOperands found with ⟨before, last, reached, reads, noOperator⟩
  rcases (binary_orders 1 reached).1 _ _ last reads noOperator with
    ⟨ordered, orders, whenOrdered, -⟩
  have same : tree = ordered := by
    have tighter : minus.level + 1 ≤ times.level := by decide
    have inorder : tree.inorder = infixItems a [(minus, b), (times, c)] := rfl
    have isOrdered : tree.Ordered :=
      ⟨trivial, tighter, trivial, trivial, trivial, trivial, trivial⟩
    exact orders.unique tree inorder isOrdered
  rw [← same] at orders whenOrdered
  have unmixed : tree.mixes = false := rfl
  have reads' : ReadsOperands (Parse.rules 1) before a [(minus, b), (times, c)] last := reads
  refine ⟨before, last, reached, reads', orders, ?_⟩
  exact whenOrdered unmixed

end Parse

end ExprScript
