import ExprScript.Proofs.Grammar.Operator
import ExprScript.Proofs.Tree.Opening

/-! # Levels of the grammar

How tightly a token binds to the expression before it, and which forms of expressions
bind how tightly.
-/

namespace ExprScript

/-! ## Operators -/

theorem BinaryOp.nullishOr_le (op : BinaryOp) : Precedence.nullishOr ≤ op.precedence :=
  InfixOp.nullishOr_le (.binary op)

theorem LogicalOp.nullishOr_le (op : LogicalOp) : Precedence.nullishOr ≤ op.precedence :=
  InfixOp.nullishOr_le (.logical op)

theorem BinaryOp.precedence_lt_exponent {op : BinaryOp} (notPower : op ≠ .arithmetic .exp) :
    op.precedence < Precedence.exponent := by
  cases op with
  | arithmetic op =>
      cases op with
      | exp => exact absurd rfl notPower
      | _ => exact Nat.le_of_ble_eq_true rfl
  | _ => exact Nat.le_of_ble_eq_true rfl

/-! ## Tokens that end an expression -/

namespace TokenKind

def continues : TokenKind → Nat
  | .noSubstitutionTemplate | .templateHead => Precedence.call
  | .regExpLiteral => Precedence.primary
  | .punctuator mark =>
    match mark with
    | .arrow => Precedence.primary
    | .dot | .leftBracket | .leftParen | .questionDot => Precedence.call
    | .plusPlus | .minusMinus => Precedence.postfixed
    | .starStar => Precedence.exponent
    | .question => Precedence.conditional
    | .comma => Precedence.sequence
    | mark =>
      match InfixOp.ofToken? (.punctuator mark) with
      | some op => op.precedence
      | none => if (Parse.assignOp? (.punctuator mark)).isSome then Precedence.assignment else 0
  | kind => ((InfixOp.ofToken? kind).map InfixOp.precedence).getD 0

variable {kind : TokenKind} {level : Nat}

theorem ne_of_continues {other : TokenKind} (stops : kind.continues < level)
    (high : level ≤ other.continues) : kind ≠ other := by
  rintro rfl
  omega

theorem continues_of_infixOp {op : InfixOp} (isInfix : InfixOp.ofToken? kind = some op) :
    kind.continues = op.precedence := by
  cases kind with
  | punctuator mark =>
      cases mark <;> first | (cases isInfix; rfl) | cases isInfix
  | keyword word => cases word <;> first | (cases isInfix; rfl) | cases isInfix
  | _ => cases isInfix

theorem continues_of_assign {op : AssignOp} (isAssign : Parse.assignOp? kind = some op) :
    kind.continues = Precedence.assignment := by
  cases kind with
  | punctuator mark => cases mark <;> first | (cases isAssign; rfl) | cases isAssign
  | _ => cases isAssign

theorem continues_of_update {op : UpdateOp} (isUpdate : Parse.updateOp? kind = some op) :
    kind.continues = Precedence.postfixed := by
  cases kind with
  | punctuator mark => cases mark <;> first | (cases isUpdate; rfl) | cases isUpdate
  | _ => cases isUpdate

theorem infix_none (stops : kind.continues < Precedence.nullishOr) :
    binaryPrecedence kind = 0 := by
  cases isInfix : InfixOp.ofToken? kind with
  | none => exact (InfixOp.ofToken?_eq_none_iff kind).mp isInfix
  | some op =>
      have high := InfixOp.nullishOr_le op
      rw [continues_of_infixOp isInfix] at stops
      omega

theorem assign_none (stops : kind.continues < Precedence.assignment) :
    Parse.assignOp? kind = none := by
  cases isAssign : Parse.assignOp? kind with
  | none => rfl
  | some op =>
      rw [continues_of_assign isAssign] at stops
      omega

theorem update_none (stops : kind.continues < Precedence.postfixed) :
    Parse.updateOp? kind = none := by
  cases isUpdate : Parse.updateOp? kind with
  | none => rfl
  | some op =>
      rw [continues_of_update isUpdate] at stops
      omega

theorem continues_le_primary (kind : TokenKind) : kind.continues ≤ Precedence.primary := by
  cases kind with
  | punctuator mark => cases mark <;> exact Nat.le_of_ble_eq_true rfl
  | keyword word => cases word <;> exact Nat.le_of_ble_eq_true rfl
  | _ => exact Nat.le_of_ble_eq_true rfl

theorem notRegExp_of_continues (stops : kind.continues < Precedence.primary) :
    kind ≠ .regExpLiteral :=
  ne_of_continues stops (Nat.le_refl _)

/-- Whether an expression may start with the token, as the parser sees it: a regular
expression is a slash. -/
def mayStart (kind : TokenKind) : Bool :=
  kind.startsOperand || kind == .punctuator .slash || kind == .punctuator .slashEqual

theorem ne_of_mayStart {other : TokenKind} (starts : kind.mayStart = true)
    (stops : other.mayStart = false) : kind ≠ other := by
  rintro rfl
  rw [stops] at starts
  cases starts

end TokenKind

/-! ## Forms of a level

An expression that binds like a level has a form of that level, or it binds tighter. -/

namespace Expr

variable {expr : Expr}

theorem tight_number {level : Nat} {literal : NumberLiteral}
    (legible : (Expr.number literal).Legible) (within : level ≤ Precedence.primary) :
    level ≤ (Expr.number literal).precedence := by
  rw [Legible] at legible
  exact Nat.le_trans within (Nat.le_of_eq legible.2.symm)

theorem tight_binary {level : Nat} (within : level ≤ Precedence.nullishOr) (loc : Span)
    (op : BinaryOp) (left right : Expr) : level ≤ (Expr.binary loc op left right).precedence :=
  Nat.le_trans within op.nullishOr_le

theorem tight_logical {level : Nat} (within : level ≤ Precedence.nullishOr) (loc : Span)
    (op : LogicalOp) (left right : Expr) : level ≤ (Expr.logical loc op left right).precedence :=
  Nat.le_trans within op.nullishOr_le

theorem Binds.sequence_or (binds : expr.Binds Precedence.sequence) (legible : expr.Legible) :
    (∃ loc items, expr = .sequence loc items) ∨ expr.Binds Precedence.assignment := by
  rcases binds with ⟨notSpread, tight⟩
  cases expr with
  | sequence loc items => exact .inl ⟨loc, items, rfl⟩
  | number => exact .inr ⟨rfl, tight_number legible (by decide)⟩
  | binary => exact .inr ⟨rfl, tight_binary (by decide) ..⟩
  | logical => exact .inr ⟨rfl, tight_logical (by decide) ..⟩
  | update _ _ fixity => cases fixity <;> exact .inr ⟨rfl, Nat.le_of_ble_eq_true rfl⟩
  | _ => exact .inr ⟨notSpread, Nat.le_of_ble_eq_true rfl⟩

theorem Binds.assignment_or (binds : expr.Binds Precedence.assignment) (legible : expr.Legible) :
    (∃ loc op target value, expr = .assign loc op target value) ∨
      (∃ loc pattern value, expr = .destructure loc .plain pattern value) ∨
      (∃ loc params body, expr = .arrow loc params body) ∨ expr.Binds Precedence.conditional := by
  rcases binds with ⟨notSpread, tight⟩
  cases expr with
  | assign loc op target value => exact .inl ⟨loc, op, target, value, rfl⟩
  | destructure loc op pattern value =>
      rcases legible with ⟨rfl, -⟩
      exact .inr (.inl ⟨loc, pattern, value, rfl⟩)
  | arrow loc params body => exact .inr (.inr (.inl ⟨loc, params, body, rfl⟩))
  | sequence => cases Nat.ble_eq_true_of_le tight
  | spread => cases notSpread
  | number => exact .inr (.inr (.inr ⟨rfl, tight_number legible (by decide)⟩))
  | binary => exact .inr (.inr (.inr ⟨rfl, tight_binary (by decide) ..⟩))
  | logical => exact .inr (.inr (.inr ⟨rfl, tight_logical (by decide) ..⟩))
  | update _ _ fixity =>
      cases fixity <;> exact .inr (.inr (.inr ⟨rfl, Nat.le_of_ble_eq_true rfl⟩))
  | _ => exact .inr (.inr (.inr ⟨rfl, Nat.le_of_ble_eq_true rfl⟩))

theorem Binds.conditional_or (binds : expr.Binds Precedence.conditional) (legible : expr.Legible) :
    (∃ loc test consequent alternate, expr = .conditional loc test consequent alternate) ∨
      expr.Binds Precedence.nullishOr := by
  rcases binds with ⟨notSpread, tight⟩
  cases expr with
  | conditional loc test consequent alternate =>
      exact .inl ⟨loc, test, consequent, alternate, rfl⟩
  | sequence | assign | destructure | arrow | spread => cases Nat.ble_eq_true_of_le tight
  | number => exact .inr ⟨rfl, tight_number legible (by decide)⟩
  | binary => exact .inr ⟨rfl, tight_binary (Nat.le_refl _) ..⟩
  | logical => exact .inr ⟨rfl, tight_logical (Nat.le_refl _) ..⟩
  | update _ _ fixity => cases fixity <;> exact .inr ⟨rfl, Nat.le_of_ble_eq_true rfl⟩
  | _ => exact .inr ⟨rfl, Nat.le_of_ble_eq_true rfl⟩

theorem Binds.nullishOr_or (binds : expr.Binds Precedence.nullishOr) (legible : expr.Legible) :
    (∃ loc op left right, expr = .binary loc op left right ∧ op ≠ .arithmetic .exp) ∨
      (∃ loc op left right, expr = .logical loc op left right) ∨
      expr.Binds Precedence.exponent := by
  rcases binds with ⟨notSpread, tight⟩
  cases expr with
  | binary loc op left right =>
      by_cases isPower : op = .arithmetic .exp
      · exact .inr (.inr ⟨rfl, by subst isPower; exact Nat.le_refl _⟩)
      · exact .inl ⟨loc, op, left, right, rfl, isPower⟩
  | logical loc op left right => exact .inr (.inl ⟨loc, op, left, right, rfl⟩)
  | sequence | assign | destructure | arrow | spread | conditional =>
      cases Nat.ble_eq_true_of_le tight
  | number => exact .inr (.inr ⟨rfl, tight_number legible (by decide)⟩)
  | update _ _ fixity => cases fixity <;> exact .inr (.inr ⟨rfl, Nat.le_of_ble_eq_true rfl⟩)
  | _ => exact .inr (.inr ⟨rfl, Nat.le_of_ble_eq_true rfl⟩)

theorem Binds.exponent_or (binds : expr.Binds Precedence.exponent) (legible : expr.Legible) :
    (∃ loc left right, expr = .binary loc (.arithmetic .exp) left right) ∨
      expr.Binds Precedence.unary := by
  rcases binds with ⟨notSpread, tight⟩
  cases expr with
  | binary loc op left right =>
      by_cases isPower : op = .arithmetic .exp
      · exact .inl ⟨loc, left, right, by rw [isPower]⟩
      · exact absurd tight (Nat.not_le.mpr (BinaryOp.precedence_lt_exponent isPower))
  | logical loc op => exact absurd tight (Nat.not_le.mpr op.precedence_lt_exponent)
  | sequence | assign | destructure | arrow | spread | conditional =>
      cases Nat.ble_eq_true_of_le tight
  | number => exact .inr ⟨rfl, tight_number legible (by decide)⟩
  | update _ _ fixity => cases fixity <;> exact .inr ⟨rfl, Nat.le_of_ble_eq_true rfl⟩
  | _ => exact .inr ⟨rfl, Nat.le_of_ble_eq_true rfl⟩

theorem Binds.unary_or (binds : expr.Binds Precedence.unary) (legible : expr.Legible) :
    (∃ loc op argument, expr = .unary loc op argument) ∨
      (∃ loc op fixity argument, expr = .update loc op fixity argument) ∨
      expr.Binds Precedence.call := by
  rcases binds with ⟨notSpread, tight⟩
  cases expr with
  | unary loc op argument => exact .inl ⟨loc, op, argument, rfl⟩
  | update loc op fixity argument => exact .inr (.inl ⟨loc, op, fixity, argument, rfl⟩)
  | binary loc op => exact absurd tight (Nat.not_le.mpr (Nat.lt_succ_of_le op.precedence_le_exponent))
  | logical loc op =>
      exact absurd tight (Nat.not_le.mpr (Nat.lt_succ_of_lt op.precedence_lt_exponent))
  | sequence | assign | destructure | arrow | spread | conditional =>
      cases Nat.ble_eq_true_of_le tight
  | number => exact .inr (.inr ⟨rfl, tight_number legible (by decide)⟩)
  | _ => exact .inr (.inr ⟨rfl, Nat.le_of_ble_eq_true rfl⟩)

inductive Atomic : Expr → Prop
  | null (loc : Span) : Atomic (.null loc)
  | boolean (loc : Span) (value : Bool) : Atomic (.boolean loc value)
  | number (literal : NumberLiteral) : Atomic (.number literal)
  | string (literal : StringLiteral) : Atomic (.string literal)
  | regExp (loc : Span) (pattern flags : String) : Atomic (.regExp loc pattern flags)
  | template (loc : Span) (quasis : List Quasi) (holes : List Expr) :
      Atomic (.template loc quasis holes)
  | ident (id : Ident) : Atomic (.ident id)
  | this (loc : Span) : Atomic (.this loc)
  | array (loc : Span) (elements : List (Option Expr)) : Atomic (.array loc elements)
  | object (loc : Span) (properties : List Property) : Atomic (.object loc properties)
  | paren (loc : Span) (inner : Expr) : Atomic (.paren loc inner)

theorem Binds.call_or (binds : expr.Binds Precedence.call) :
    (∃ loc owner key optional, expr = .member loc owner key optional) ∨
      (∃ loc callee arguments optional, expr = .call loc callee arguments optional) ∨
      (∃ loc callee arguments, expr = .new loc callee arguments) ∨
      (∃ loc tag templateLoc quasis holes, expr = .tagged loc tag templateLoc quasis holes) ∨
      expr.Atomic := by
  rcases binds with ⟨notSpread, tight⟩
  cases expr with
  | member loc owner key optional => exact .inl ⟨loc, owner, key, optional, rfl⟩
  | call loc callee arguments optional =>
      exact .inr (.inl ⟨loc, callee, arguments, optional, rfl⟩)
  | new loc callee arguments => exact .inr (.inr (.inl ⟨loc, callee, arguments, rfl⟩))
  | tagged loc tag templateLoc quasis holes =>
      exact .inr (.inr (.inr (.inl ⟨loc, tag, templateLoc, quasis, holes, rfl⟩)))
  | binary loc op left right =>
      exact absurd tight (Nat.not_le.mpr (Nat.lt_of_le_of_lt op.precedence_le_exponent (by decide)))
  | logical loc op left right =>
      exact absurd tight (Nat.not_le.mpr (Nat.lt_trans op.precedence_lt_exponent (by decide)))
  | update _ _ fixity => cases fixity <;> cases Nat.ble_eq_true_of_le tight
  | sequence | assign | destructure | arrow | spread | conditional | unary =>
      cases Nat.ble_eq_true_of_le tight
  | _ => exact .inr (.inr (.inr (.inr (by constructor))))

theorem Atomic.kind_ne_arrow (isAtomic : expr.Atomic) :
    expr.kind ≠ .arrowFunctionExpression := by
  cases isAtomic <;> nofun

theorem Atomic.isOptionalChain (isAtomic : expr.Atomic) : expr.isOptionalChain = false := by
  cases isAtomic <;> simp [Expr.isOptionalChain]

end Expr

end ExprScript
