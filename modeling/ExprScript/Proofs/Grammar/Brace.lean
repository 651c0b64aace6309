import ExprScript.Grammar.Expression
import ExprScript.Proofs.Grammar.Operator
import ExprScript.Proofs.Grammar.State
import ExprScript.Proofs.Tree.Grammatical

/-! # Expressions that start with a brace

An object at the very start of an expression was the first thing that was read of it, so the
token before it was read is the brace. Every rule passes this on from the rule that reads its
first part; what comes behind that part does not matter.
-/

namespace ExprScript

def JoinsKeep (holds : Expr → Prop) : Prop :=
  ∀ (pending : PendingOperator) (left right joined : Expr),
    pending.join left right = .ok joined → holds left → holds joined

namespace Climb

def Bottom (holds : Expr → Prop) (operators : List PendingOperator) (operands : List Expr) : Prop :=
  ∃ upper first, operands = upper ++ [first] ∧ upper.length = operators.length ∧ holds first

variable {holds : Expr → Prop} {operators : List PendingOperator} {operands : List Expr}

theorem Bottom.reduceTop {top : PendingOperator} (bottom : Bottom holds (top :: operators) operands)
    (joins : JoinsKeep holds) {reduced : List Expr}
    (run : reduceTop operands top = .ok reduced) : Bottom holds operators reduced := by
  rcases bottom with ⟨upper, first, rfl, length, isFirst⟩
  rcases upper with _ | ⟨right, upper⟩
  · cases length
  have length := Nat.succ.inj length
  rcases upper with _ | ⟨left, upper⟩
  · rcases except_bind_ok run with ⟨joined, join, equal⟩
    cases equal
    exact ⟨[], joined, rfl, length, joins _ _ _ _ join isFirst⟩
  · rcases except_bind_ok run with ⟨joined, join, equal⟩
    cases equal
    exact ⟨joined :: upper, first, rfl, length, isFirst⟩

theorem Bottom.reduceFrom {precedence : Nat} (bottom : Bottom holds operators operands)
    (joins : JoinsKeep holds) {climb : Climb}
    (run : reduceFrom precedence operators operands = .ok climb) :
    Bottom holds climb.operators climb.operands ∧ (precedence = 0 → climb.operators = []) := by
  induction operators generalizing operands with
  | nil =>
      cases run
      exact ⟨bottom, fun _ => rfl⟩
  | cons top operators induction =>
      rw [Climb.reduceFrom] at run
      split at run
      · next looser =>
          cases run
          exact ⟨bottom, fun isZero => by omega⟩
      · rcases except_bind_ok run with ⟨reduced, reduces, rest⟩
        exact induction (bottom.reduceTop joins reduces) rest

theorem Bottom.shift {climb shifted : Climb} {pending : PendingOperator}
    (bottom : Bottom holds climb.operators climb.operands) (joins : JoinsKeep holds)
    (run : climb.shift pending = .ok shifted) (operand : Expr) :
    Bottom holds (shifted.push operand).operators (shifted.push operand).operands := by
  rcases except_bind_ok run with ⟨reduced, reduces, equal⟩
  cases equal
  rcases (bottom.reduceFrom joins reduces).1 with ⟨upper, first, operands, length, isFirst⟩
  exact ⟨operand :: upper, first, congrArg (operand :: ·) operands, congrArg (· + 1) length,
    isFirst⟩

theorem Bottom.finish {climb : Climb} {position : Position} {result : Expr}
    (bottom : Bottom holds climb.operators climb.operands) (joins : JoinsKeep holds)
    (run : climb.finish position = .ok result) : holds result := by
  rcases except_bind_ok run with ⟨reduced, reduces, run⟩
  rcases bottom.reduceFrom joins reduces with ⟨⟨upper, first, operands, length, isFirst⟩, empty⟩
  rw [empty rfl] at length
  cases List.eq_nil_of_length_eq_zero length
  rw [operands] at run
  cases run
  exact isFirst

end Climb

namespace Parse

def OpensAtBrace (parse : Parse Expr) : Prop :=
  ∀ before : ParserState, Ensures parse before fun expr _ =>
    expr.opensBrace = true → before.lookahead.kind = .punctuator .leftBrace

def OpensApart (parse : Parse Expr) : Prop :=
  ∀ before : ParserState, Ensures parse before fun expr _ => expr.opensBrace = false

variable {rules : Rules} {parse : Parse Expr}

theorem OpensApart.atBrace (apart : OpensApart parse) : OpensAtBrace parse := by
  intro before
  refine (apart before).mono fun expr _ isFalse isTrue => ?_
  rw [isFalse] at isTrue
  cases isTrue

namespace OpensAtBrace

theorem isolated (opens : OpensAtBrace parse) : OpensAtBrace (isolate parse) := by
  intro before
  refine .get (.modify (.bind ?_))
  refine (opens { before with pendingInitializer := none }).mono fun expr middle brace => .get ?_
  split
  · exact .throw _
  · exact .modify (.pure brace)

theorem inherited (opens : OpensAtBrace parse) : OpensAtBrace (inherit parse) := by
  intro before
  refine .get (.modify (.bind ?_))
  refine (opens { before with pendingInitializer := none }).mono fun expr middle brace => ?_
  exact .modify (.pure brace)

end OpensAtBrace

/-! ## Primary expressions -/

theorem arrow_opensApart (start : Position) (items : List Expr) :
    OpensApart (arrow rules start items) := by
  intro before
  refine .bindAny fun params _ => .get (.bindAny fun _ _ => .modify (.bindAny fun sign _ => ?_))
  refine .ite (fun _ => .bind (.throw _)) fun _ => at?_bind ?_
  refine .ite (fun _ => start_bind (.bind (fail_ensures _ _))) fun _ => ?_
  exact .bindAny fun body _ => spanFrom_bind fun _ => .pure rfl

theorem groupOrArrow_opensApart : OpensApart (groupOrArrow rules) := by
  intro before
  refine start_bind (.get (.bindAny fun _ opened => at?_bind (.ite (fun _ => ?_) fun _ => ?_)))
  · refine .bindAny fun close middle => at?_bind (.ite (fun _ => .bind (.throw _)) fun _ => ?_)
    exact arrow_opensApart _ _ _
  · refine .bindAny fun group inside => .bindAny fun close after => at?_bind ?_
    refine .ite (fun _ => arrow_opensApart _ _ _) fun _ => .ite (fun _ => .throw _) fun _ => ?_
    exact spanFrom_bind fun _ => .pure rfl

theorem nameOrArrow_opensApart : OpensApart (nameOrArrow rules) := by
  intro before
  have isName : ∀ state, Ensures (do return Expr.ident (← bindingName)) state fun expr _ =>
      expr.opensBrace = false :=
    fun _ => .bindAny fun _ _ => .pure rfl
  refine start_bind (.get (.ite (fun _ => ?_) fun _ => isName _))
  refine secondKind_bind fun _ => .ite (fun _ => ?_) fun _ => isName _
  exact .bindAny fun _ _ => arrow_opensApart _ _ _

theorem arrayLiteral_opensApart : OpensApart (arrayLiteral rules) := by
  intro before
  refine start_bind (.bindAny fun _ _ => .bindAny fun _ _ => .bindAny fun _ _ => ?_)
  exact spanFrom_bind fun _ => .pure rfl

theorem regExpLiteral_opensApart : OpensApart regExpLiteral := by
  intro before
  refine .bindAny fun _ _ => .bindAny fun _ _ => .modify (.bindAny fun token _ => ?_)
  split
  · exact .bindAny fun _ _ => .pure rfl
  · exact .throw _

theorem primary_opensAtBrace : OpensAtBrace (primary rules) := by
  have word : ∀ build : Span → Expr, (∀ loc, (build loc).opensBrace = false) →
      OpensAtBrace (do return build (← advance).span) := by
    intro build apart
    exact OpensApart.atBrace fun _ => .bindAny fun token _ => .pure (apart token.span)
  intro before
  refine kind_bind ?_
  split
  · exact nameOrArrow_opensApart.atBrace before
  · exact .bindAny fun _ _ => .pure nofun
  · exact .bindAny fun _ _ => .pure nofun
  · exact word (.boolean · true) (fun _ => rfl) before
  · exact word (.boolean · false) (fun _ => rfl) before
  · exact word .null (fun _ => rfl) before
  · exact word .this (fun _ => rfl) before
  · exact .bindAny fun _ _ => .pure nofun
  · exact .bindAny fun _ _ => .pure nofun
  · exact arrayLiteral_opensApart.atBrace before
  · next isBrace => exact fun _ _ _ _ => isBrace
  · exact groupOrArrow_opensApart.atBrace before
  · exact regExpLiteral_opensApart.atBrace before
  · exact regExpLiteral_opensApart.atBrace before
  · exact unexpected_ensures

/-! ## Chains -/

theorem links_opensBrace (start : Position) (first : Expr) (before : ParserState) :
    Ensures (links rules start first) before fun expr _ => expr.opensBrace = first.opensBrace := by
  refine loop_ensures (fun (chain : Expr × Bool) _ => chain.1.opensBrace = first.opensBrace) ?_ rfl
  rintro ⟨expr, afterOptional⟩ state same
  have named : ∀ optional state, Ensures (namedMember start expr optional) state
      fun expr' _ => expr'.opensBrace = first.opensBrace :=
    fun _ _ => .bindAny fun _ _ => spanFrom_bind fun _ => .pure same
  have bracket : ∀ optional state, Ensures (bracketMember rules start expr optional) state
      fun expr' _ => expr'.opensBrace = first.opensBrace :=
    fun _ _ => .bindAny fun _ _ => spanFrom_bind fun _ => .pure same
  have called : ∀ optional state, Ensures (callWith rules start expr optional) state
      fun expr' _ => expr'.opensBrace = first.opensBrace :=
    fun _ _ => .bindAny fun _ _ => spanFrom_bind fun _ => .pure same
  have tagged : Ensures (do
      if afterOptional then fail .taggedOptionalChain (← Parse.start)
      return Round.again (← taggedTemplate rules start expr, afterOptional)) state
      fun (outcome : Round (Expr × Bool) Expr) _ => outcome.Holds
        (fun chain => chain.1.opensBrace = first.opensBrace)
        fun expr => expr.opensBrace = first.opensBrace := by
    refine .ite (fun _ => start_bind (.bind (fail_ensures _ _))) fun _ => ?_
    exact .bind (.bindAny fun _ _ => spanFrom_bind fun _ => .pure (.pure same))
  have optionally : ∀ state, Ensures (optionalLink rules start expr) state
      fun expr' _ => expr'.opensBrace = first.opensBrace := by
    intro state
    refine kind_bind ?_
    split
    · exact called true state
    · exact bracket true state
    · exact .ite (fun _ => start_bind (.bind (fail_ensures _ _))) fun _ => named true state
  refine kind_bind ?_
  split
  · exact .bindAny fun _ middle => .bind ((named false middle).mono fun _ _ same => .pure same)
  · exact .bind ((bracket false state).mono fun _ _ same => .pure same)
  · exact .bind ((called false state).mono fun _ _ same => .pure same)
  · exact .bindAny fun _ middle => .bind ((optionally middle).mono fun _ _ same => .pure same)
  · exact tagged
  · exact tagged
  · exact .pure same

theorem construction_opensApart : OpensApart (construction rules) := by
  intro before
  refine start_bind (.bindAny fun _ _ => at?_bind (.ite (fun _ => .bind unexpected_ensures)
    fun _ => .bindAny fun callee _ => at?_bind (.iteBind ?_)))
  exact fun _ _ _ => spanFrom_bind fun _ => .pure rfl

theorem chain_opensAtBrace : OpensAtBrace (chain rules) := by
  intro before
  have first : Ensures (if before.lookahead.kind == .keyword .newWord then construction rules
      else primary rules) before fun expr _ =>
        expr.opensBrace = true → before.lookahead.kind = .punctuator .leftBrace :=
    .ite (fun _ => construction_opensApart.atBrace before) fun _ => primary_opensAtBrace before
  refine start_bind (kind_bind (.iteBind (first.mono fun expr middle brace => ?_)))
  dsimp only
  split
  · exact .pure brace
  · refine (links_opensBrace _ expr middle).mono fun expr' _ same isTrue => ?_
    exact brace (same ▸ isTrue)

/-! ## Operators -/

theorem postfixed_opensAtBrace : OpensAtBrace (postfixed rules) := by
  intro before
  refine start_bind (.bind ((chain_opensAtBrace.inherited before).mono ?_))
  intro expr middle brace
  refine lookahead_bind ?_
  split
  · exact .pure brace
  · refine .ite (fun _ => .pure brace) fun _ => ?_
    refine .ite (fun _ => .bind (fail_ensures _ _)) fun _ => ?_
    exact .bindAny fun _ _ => spanFrom_bind fun _ => .pure brace

theorem unary_opensAtBrace : OpensAtBrace (unary rules) := by
  intro before
  refine start_bind (kind_bind ?_)
  split
  · exact .bindAny fun _ _ => .bindAny fun _ _ => spanFrom_bind fun _ => .pure nofun
  · refine .bindAny fun _ _ => .bindAny fun _ _ => ?_
    refine .ite (fun _ => .bind (fail_ensures _ _)) fun _ => ?_
    exact spanFrom_bind fun _ => .pure nofun
  · exact postfixed_opensAtBrace before

theorem exponent_opensAtBrace : OpensAtBrace (exponent rules) := by
  intro before
  refine .bind ((unary_opensAtBrace.inherited before).mono fun base middle brace => ?_)
  refine at?_bind (.ite (fun _ => .pure brace) fun _ => ?_)
  refine .ite (fun _ => start_bind (.bind (fail_ensures _ _))) fun _ => ?_
  exact .bindAny fun _ _ => .bindAny fun _ _ => .pure brace

theorem opensBrace_join {pending : PendingOperator} {left right joined : Expr}
    (join : pending.join left right = .ok joined) : joined.opensBrace = left.opensBrace := by
  rcases PendingOperator.join_ok join with ⟨op, rfl⟩ | ⟨op, rfl⟩ <;> rfl

theorem binary_opensAtBrace : OpensAtBrace (binary rules) := by
  intro before
  refine .bind ((exponent_opensAtBrace.inherited before).mono fun first opened brace => ?_)
  let leads (expr : Expr) : Prop :=
    expr.opensBrace = true → before.lookahead.kind = .punctuator .leftBrace
  have joins : JoinsKeep leads := by
    intro pending left right joined join brace isTrue
    exact brace (opensBrace_join join ▸ isTrue)
  refine .bind (loop_ensures (fun (climb : Climb) _ =>
    Climb.Bottom leads climb.operators climb.operands) ?_ ⟨[], first, rfl, rfl, brace⟩)
  rintro climb state bottom
  refine kind_bind (.ite (fun _ => ?_) fun _ => ?_)
  · exact .pure (.get (ofExcept_ensures fun result run => bottom.finish joins run))
  · refine start_bind (ofExcept_bind fun shifted shift => ?_)
    exact .bindAny fun _ _ => .bindAny fun operand _ => .pure (bottom.shift joins shift operand)

theorem conditional_opensAtBrace : OpensAtBrace (conditional rules) := by
  intro before
  refine start_bind (.bind ((binary_opensAtBrace.inherited before).mono fun test _ brace => ?_))
  refine at?_bind (.ite (fun _ => .pure brace) fun _ => ?_)
  refine .bindAny fun _ _ => .bindAny fun _ _ => .bindAny fun _ _ => .bindAny fun _ _ => ?_
  exact spanFrom_bind fun _ => .pure brace

/-! ## Assignments -/

theorem opensBrace_destructure {use : PatternUse} {literal value : Expr} {pattern : Pattern}
    {loc : Span} {op : AssignOp} (run : reinterpret use literal = .ok pattern) :
    (Expr.destructure loc op pattern value).opensBrace = true → literal.opensBrace = true := by
  intro brace
  cases literal with
  | object => rfl
  | ident id =>
      rw [reinterpret] at run
      cases run
      cases brace
  | array loc' elements =>
      rw [reinterpret] at run
      rcases except_bind_ok run with ⟨patterns, -, equal⟩
      cases equal
      cases brace
  | assign loc' op target value' =>
      cases op with
      | plain =>
          rw [reinterpret] at run
          rcases except_bind_ok run with ⟨inner, -, equal⟩
          cases equal
          cases brace
      | _ => cases run
  | destructure loc' op inner value' =>
      cases op with
      | plain =>
          cases run
          cases brace
      | _ => cases run
  | _ => cases run

theorem assignmentTail_opensBrace (start : Position) (expr : Expr) (before : ParserState) :
    Ensures (assignmentTail rules start expr) before fun result _ =>
      result.opensBrace = true → expr.opensBrace = true := by
  refine .ite (fun _ => .pure id) fun _ => kind_bind ?_
  split
  · exact .pure id
  · refine .ite (fun _ => ?_) fun _ => .ite (fun _ => ?_) fun _ => .throw _
    · refine ofExcept_bind fun pattern run => .get (.bindAny fun _ _ => .modify ?_)
      exact .bindAny fun _ _ => spanFrom_bind fun _ => .pure (opensBrace_destructure run)
    · exact .bindAny fun _ _ => spanFrom_bind fun _ => .pure id

theorem assignment_opensAtBrace (rules : Rules) : OpensAtBrace (assignment rules) := by
  intro before
  refine start_bind (.get (.modify (.bind ?_)))
  refine (conditional_opensAtBrace.inherited { before with assignmentStart := before.offset }).mono
    fun expr middle brace => .bind ?_
  refine (assignmentTail_opensBrace _ expr middle).mono fun result after opens => ?_
  exact .modify (.pure fun isTrue => brace (opens isTrue))

end Parse

end ExprScript
