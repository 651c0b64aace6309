import ExprScript.Grammar.Climb

/-! # The operators that are climbed

A token is looked up three times: for its level, as a logical operator and as a binary one.
The tokens with a level are those that are found as an operator, so that two operands can
always be joined. The levels are in the order of the levels of printed forms.
-/

namespace ExprScript

/-- A binary or logical operator between two operands. -/
inductive InfixOp where
  | binary (op : BinaryOp)
  | logical (op : LogicalOp)
deriving DecidableEq, Repr

/-- The level at which an operator is climbed, from the level at which it is printed. The table
of the parser leaves a level out below the multiplicative operators. -/
def climbingLevel (printed : Nat) : Nat := if printed ≤ 12 then printed - 3 else printed - 2

theorem climbingLevel_lt {low high : Nat} (above : 3 ≤ low) (less : low < high) :
    climbingLevel low < climbingLevel high := by
  unfold climbingLevel
  split <;> split <;> omega

theorem climbingLevel_le {low high : Nat} (within : low ≤ high) :
    climbingLevel low ≤ climbingLevel high := by
  unfold climbingLevel
  split <;> split <;> omega

namespace InfixOp

/-- The operator that a token stands for. -/
def ofToken? (kind : TokenKind) : Option InfixOp :=
  match LogicalOp.ofToken? kind with
  | some op => some (.logical op)
  | none => (BinaryOp.ofToken? kind).map .binary

/-- How tightly the printed form binds. -/
def precedence : InfixOp → Nat
  | .binary op => op.precedence
  | .logical op => op.precedence

variable {kind : TokenKind} {op : InfixOp}

theorem ofToken?_eq_none_iff (kind : TokenKind) :
    ofToken? kind = none ↔ binaryPrecedence kind = 0 := by
  cases kind with
  | punctuator mark => cases mark <;> decide
  | keyword word => cases word <;> decide
  | _ => decide

theorem exists_of_token (climbs : binaryPrecedence kind ≠ 0) : ∃ op, ofToken? kind = some op :=
  Option.ne_none_iff_exists'.mp (mt (ofToken?_eq_none_iff kind).mp climbs)

theorem binaryPrecedence_eq (found : ofToken? kind = some op) :
    binaryPrecedence kind = climbingLevel op.precedence := by
  cases kind with
  | punctuator mark => cases mark <;> cases found <;> rfl
  | keyword word => cases word <;> cases found <;> rfl
  | _ => cases found

theorem nullishOr_le (op : InfixOp) : Precedence.nullishOr ≤ op.precedence := by
  cases op with
  | binary op =>
      cases op with
      | arithmetic op => cases op <;> decide
      | _ => decide
  | logical op => cases op <;> decide

theorem precedence_lt_exponent (found : ofToken? kind = some op) :
    op.precedence < Precedence.exponent := by
  cases kind with
  | punctuator mark => cases mark <;> cases found <;> exact Nat.le_of_ble_eq_true rfl
  | keyword word => cases word <;> cases found <;> exact Nat.le_of_ble_eq_true rfl
  | _ => cases found

theorem ne_zero_of_token (found : ofToken? kind = some op) : binaryPrecedence kind ≠ 0 := by
  intro isZero
  rw [(ofToken?_eq_none_iff kind).mpr isZero] at found
  cases found

end InfixOp

theorem PendingOperator.join_ok {pending : PendingOperator} {left right joined : Expr}
    (run : pending.join left right = .ok joined) :
    (∃ op, joined = .binary (left.loc.join right.loc) op left right) ∨
      ∃ op, joined = .logical (left.loc.join right.loc) op left right := by
  unfold PendingOperator.join at run
  dsimp only at run
  split at run
  · split at run
    · cases run
    · cases run
      exact .inr ⟨_, rfl⟩
  · split at run
    · cases run
      exact .inl ⟨_, rfl⟩
    · cases run

/-- An operator between two operands, with its token and its place. -/
structure InfixOperator where
  kind : TokenKind
  op : InfixOp
  position : Position
  found : InfixOp.ofToken? kind = some op
deriving DecidableEq

namespace InfixOperator

def level (operator : InfixOperator) : Nat := binaryPrecedence operator.kind

def stacked (operator : InfixOperator) : PendingOperator :=
  { kind := operator.kind, precedence := operator.level, position := operator.position }

@[simp] theorem precedence_stacked (operator : InfixOperator) :
    operator.stacked.precedence = operator.level := rfl

theorem level_eq (operator : InfixOperator) :
    operator.level = climbingLevel operator.op.precedence :=
  InfixOp.binaryPrecedence_eq operator.found

theorem level_lt_iff (first second : InfixOperator) :
    first.level < second.level ↔ first.op.precedence < second.op.precedence := by
  rw [first.level_eq, second.level_eq]
  constructor
  · intro less
    rcases Nat.lt_or_ge first.op.precedence second.op.precedence with looser | tighter
    · exact looser
    · exact absurd (climbingLevel_le tighter) (Nat.not_le.mpr less)
  · exact climbingLevel_lt (Nat.le_of_succ_le first.op.nullishOr_le)

/-- Operands are refused only for being mixed. -/
theorem join_stacked (operator : InfixOperator) (left right : Expr) :
    operator.stacked.join left right =
      match operator.op with
      | .binary op => .ok (.binary (left.loc.join right.loc) op left right)
      | .logical op =>
        if op.conflictsWith left || op.conflictsWith right then
          .error { cause := .mixedNullish, position := operator.position }
        else .ok (.logical (left.loc.join right.loc) op left right) := by
  rcases operator with ⟨kind, op, position, found⟩
  unfold InfixOp.ofToken? at found
  simp only [PendingOperator.join, stacked]
  cases isLogical : LogicalOp.ofToken? kind with
  | some logical =>
      rw [isLogical] at found
      cases found
      rfl
  | none =>
      rw [isLogical] at found
      rcases Option.map_eq_some_iff.mp found with ⟨binary, isBinary, rfl⟩
      rw [isBinary]

end InfixOperator

end ExprScript
