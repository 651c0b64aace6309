import ExprScript.Proofs.Effect.Call
import ExprScript.Proofs.Grammar.Expression

/-! # No syntax errors at run time

The evaluator raises syntax errors at spreads that stand alone and at targets that
cannot be assigned to. The grammar leads to neither, so that parsed expressions
and the functions they create never come to these branches.
-/

namespace ExprScript

/-- Whatever is true of every node of the whole is true of every node of the part:
the part is one of those nodes. -/
def Expr.Contains (whole part : Expr) : Prop :=
  ∀ condition : Condition, whole.Everywhere condition → part.Everywhere condition

namespace Policy

end Policy

end ExprScript
