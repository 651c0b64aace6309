import ExprScript.Grammar.Expression
import ExprScript.Proofs.Grammar.Literal
import ExprScript.Proofs.Grammar.Operator

/-! # Operators between operands

While operators wait on the stack, each binds tighter than the one below it, and
every operand binds as tightly as the operators beside it demand.
-/

namespace ExprScript

/-- Two operands that bind tightly enough are joined to one that binds like its
operator. -/
theorem InfixOperator.join_stands {pending : Option Position} {operator : InfixOperator}
    {left right joined : Expr} (leftStands : left.Stands pending operator.op.precedence)
    (rightStands : right.Stands pending (operator.op.precedence + 1))
    (run : operator.stacked.join left right = .ok joined) :
    joined.Stands pending operator.op.precedence := by
  have inside : pending = none → left.Grammatical ∧ right.Grammatical :=
    fun isNone => ⟨leftStands.cover.whole isNone, rightStands.cover.whole isNone⟩
  have looser := InfixOp.precedence_lt_exponent operator.found
  rw [operator.join_stacked] at run
  generalize operator.op = op at looser leftStands rightStands run
  cases op with
  | binary op =>
      cases run
      have notPower : op ≠ .arithmetic .exp := by
        rintro rfl
        exact absurd looser (by decide)
      refine ⟨⟨fun isNone => ⟨⟨?_, trivial⟩, inside isNone⟩, ?_⟩, rfl, .inl (Nat.le_refl _)⟩
      · rw [Expr.Shape, if_neg notPower]
        exact ⟨leftStands.operand, rightStands.operand⟩
      · exact Expr.asPattern_of_refused fun _ => rfl
  | logical op =>
      dsimp only at run
      split at run
      · cases run
      · next noConflict =>
          cases run
          simp only [Bool.or_eq_true, not_or, Bool.not_eq_true] at noConflict
          refine ⟨⟨fun isNone => ⟨⟨⟨⟨?_, ?_⟩, ?_, ?_⟩, trivial⟩, inside isNone⟩, ?_⟩, rfl,
            .inl (Nat.le_refl _)⟩
          · exact leftStands.operand
          · exact noConflict.1
          · exact rightStands.operand
          · exact noConflict.2
          · exact Expr.asPattern_of_refused fun _ => rfl

namespace Climb

/-- The stacks, with the top operand at a level that the operators below it do
not reach. -/
inductive Stacked (pending : Option Position) : Nat → List PendingOperator → List Expr → Prop
  | bottom {level : Nat} {operand : Expr} (stands : operand.Stands pending level) :
      Stacked pending level [] [operand]
  | push {level : Nat} {operand : Expr} {operator : InfixOperator}
      {operators : List PendingOperator} {operands : List Expr}
      (stands : operand.Stands pending level) (looser : operator.op.precedence < level)
      (below : Stacked pending operator.op.precedence operators operands) :
      Stacked pending level (operator.stacked :: operators) (operand :: operands)

variable {pending : Option Position}

theorem Stacked.top {level : Nat} {operators : List PendingOperator} {operands : List Expr}
    (stacked : Stacked pending level operators operands) :
    ∃ top others, operands = top :: others ∧ top.Stands pending level := by
  cases stacked with
  | bottom stands => exact ⟨_, _, rfl, stands⟩
  | push stands => exact ⟨_, _, rfl, stands⟩

theorem Stacked.replaceTop {level : Nat} {operators : List PendingOperator} {top other : Expr}
    {operands : List Expr} (stacked : Stacked pending level operators (top :: operands))
    (stands : other.Stands pending level) :
    Stacked pending level operators (other :: operands) := by
  cases stacked with
  | bottom => exact .bottom stands
  | push _ looser below => exact .push stands looser below

/-- Reducing leaves operators that bind looser than the given level. -/
theorem Stacked.reduceFrom {level bound precedence : Nat} {operators : List PendingOperator}
    {operands : List Expr} (stacked : Stacked pending level operators operands)
    (agrees : ∀ operator : InfixOperator,
      operator.level < precedence ↔ operator.op.precedence < bound)
    (within : bound ≤ level) {climb : Climb}
    (run : Climb.reduceFrom precedence operators operands = .ok climb) :
    Stacked pending bound climb.operators climb.operands := by
  induction operators generalizing level operands with
  | nil =>
      cases stacked with
      | bottom stands =>
          cases run
          exact .bottom (stands.mono within)
  | cons waiting operators induction =>
      cases stacked with
      | @push _ _ operator _ _ stands looser below =>
          rw [Climb.reduceFrom] at run
          split at run
          · next isLooser =>
              cases run
              exact .push (stands.mono within) ((agrees operator).mp isLooser) below
          · next isTighter =>
              have tighter := Nat.not_lt.mp (mt (agrees operator).mpr isTighter)
              rcases except_bind_ok run with ⟨reduced, joins, run⟩
              rcases below.top with ⟨left, others, rfl, leftStands⟩
              rcases except_bind_ok joins with ⟨joined, join, equal⟩
              cases equal
              have joinedStands := InfixOperator.join_stands leftStands
                (stands.mono looser) join
              exact induction (below.replaceTop joinedStands) tighter run

/-- The next operator waits above the operators that bind looser. -/
theorem Stacked.shift {climb after : Climb} {operator : InfixOperator}
    (stacked : Stacked pending Precedence.exponent climb.operators climb.operands)
    (run : climb.shift operator.stacked = .ok after) {operand : Expr}
    (stands : operand.Stands pending Precedence.exponent) :
    Stacked pending Precedence.exponent (after.push operand).operators
      (after.push operand).operands := by
  rcases except_bind_ok run with ⟨reduced, reduces, equal⟩
  cases equal
  have looser := InfixOp.precedence_lt_exponent operator.found
  exact .push stands looser
    (stacked.reduceFrom (fun other => other.level_lt_iff operator) (Nat.le_of_lt looser) reduces)

theorem Stacked.finish {climb : Climb} {position : Position} {result : Expr}
    (stacked : Stacked pending Precedence.exponent climb.operators climb.operands)
    (run : climb.finish position = .ok result) :
    result.Stands pending Precedence.nullishOr := by
  rcases except_bind_ok run with ⟨reduced, reduces, run⟩
  have agrees (operator : InfixOperator) :
      operator.level < 0 ↔ operator.op.precedence < Precedence.nullishOr :=
    iff_of_false (Nat.not_lt_zero _) (Nat.not_lt.mpr operator.op.nullishOr_le)
  rcases (stacked.reduceFrom agrees (by decide) reduces).top with ⟨top, others, operands, stands⟩
  rw [operands] at run
  cases run
  exact stands

end Climb

def Parse.climbRound (rules : Rules) : Climb → Parse (Round Climb Climb) := fun climb => do
  let kind ← kind
  if binaryPrecedence kind = 0 then return .done climb
  let pending := { kind, precedence := binaryPrecedence kind, position := ← start }
  let climb ← ofExcept (climb.shift pending)
  let _ ← advance
  let operand ← isolate (exponent rules)
  return .again (climb.push operand)

end ExprScript
