import ExprScript.Proofs.Build.Readable

/-! # Numbers as operands

A number is printed as a literal, with a minus sign, or as a division by zero, and the level
that it binds with is that of its text. So it is read as the same number wherever it is an
operand. The sign of a negative zero is not printed.
-/

namespace ExprScript.Build

open NumberLiteral

variable {value : Float} {dividend expr : Expr}

/-! ## Numbers -/

theorem number_eq_written (finite : value.isFinite = true) :
    number value = .number (written value) := by
  rw [number, written, Number.print, Number.not_isNaN finite, Number.not_isInf finite]
  rfl

theorem stable_written (finite : value.isFinite = true) (positive : Number.hasSign value = false) :
    Stable (.number (written value)) := by
  rw [← number_eq_written finite]
  have written := (faithful_number finite positive).written
  have plain : Number.Plain value := written.writable.1.2.plain
  exact ⟨written, shown_canonical plain⟩

theorem stable_minus (finite : value.isFinite = true) :
    Stable (.unary {} .minus (.number (Number.literal value))) := by
  have magnitude : Stable (.number (Number.literal value)) :=
    stable_written (Number.isFinite_abs finite) (Number.plain_abs finite).not_hasSign
  have primary : (Expr.number (Number.literal value)).precedence = Precedence.primary :=
    Number.precedence_abs finite
  have stable := magnitude.unary .minus
  rwa [Build.unary, primary] at stable

theorem binary_overZero (tight : Precedence.multiplicative ≤ dividend.precedence) :
    binary (.arithmetic .div) dividend (.number (written 0.0)) = overZero dividend := by
  have bound : decide (dividend.precedence < BinaryOp.precedence (.arithmetic .div)) = false :=
    decide_eq_false (Nat.not_lt.mpr tight)
  rw [Build.binary, if_neg (by decide), bound]
  rfl

theorem readable_of_overZero (stable : Stable dividend) (same : dividend.shown = dividend)
    (tight : Precedence.multiplicative ≤ dividend.precedence)
    (shows : expr.shown = overZero dividend) : Readable expr := by
  have zero : Stable (.number (written 0.0)) := stable_written (by decide) (by decide)
  refine ⟨overZero dividend, ?_, (shown_overZero same tight).trans shows.symm⟩
  rw [← binary_overZero tight]
  exact stable.binary zero (.arithmetic .div)

theorem not_hasSign_of_isZero (isZero : (value == 0.0) = true) (other : value ≠ -0.0) :
    Number.hasSign value = false := by
  rcases Number.eq_or_zeros_of_beq isZero with rfl | ⟨rfl, -⟩ | ⟨negative, -⟩
  · decide
  · decide
  · exact absurd negative other

theorem readable_number (other : value ≠ -0.0) : Readable (number value) := by
  have one : Stable (.number (written 1.0)) := stable_written (by decide) (by decide)
  have cases : Number.Shown value (number value).shown :=
    shown_cases (.mk {} value (Number.toText value))
  generalize shows : (number value).shown = expr at cases
  cases cases with
  | nan =>
      have zero : Stable (.number (written 0.0)) := stable_written (by decide) (by decide)
      exact readable_of_overZero zero (shown_written (by decide) (by decide)) (by decide) shows
  | infinite =>
      exact readable_of_overZero one (shown_written (by decide) (by decide)) (by decide) shows
  | negativeInfinite =>
      exact readable_of_overZero (@stable_minus 1.0 (by decide)) (@shown_minus 1.0 (by decide))
        (by decide) shows
  | negative finite => exact ⟨_, stable_minus finite, (shown_minus finite).trans shows.symm⟩
  | literal finite positive =>
      have noSign : Number.hasSign value = false := by
        rw [Number.isNegative, Bool.and_eq_false_iff, Bool.not_eq_false'] at positive
        exact positive.elim id (not_hasSign_of_isZero · other)
      rw [number_eq_written finite]
      exact ⟨_, stable_written finite noSign, rfl⟩

/-! ## Operations -/

/-- An operation with the number as an operand, built with a readable tree as the other. -/
inductive Operates (value : Float) : Expr → Prop
  | unary (op : UnaryOp) : Operates value (unary op (number value))
  | left (op : BinaryOp) {other : Expr} (readable : Readable other) :
      Operates value (binary op (number value) other)
  | right (op : BinaryOp) {other : Expr} (readable : Readable other) :
      Operates value (binary op other (number value))
  | logicalLeft (op : LogicalOp) {other : Expr} (readable : Readable other) :
      Operates value (logical op (number value) other)
  | logicalRight (op : LogicalOp) {other : Expr} (readable : Readable other) :
      Operates value (logical op other (number value))

/-- A number other than the negative zero keeps its value wherever it is an operand: the text
of the operation is parsed, and what is parsed evaluates as the operation does. -/
theorem parse_operation_agrees (value : Float) (other : value ≠ -0.0) {expr : Expr}
    (operates : Operates value expr) :
    ∃ found, parse expr.print = .ok found ∧ found.Agrees expr := by
  have number := readable_number other
  apply Readable.parse
  cases operates with
  | unary op => exact number.unary op
  | left op readable => exact number.binary readable op
  | right op readable => exact readable.binary number op
  | logicalLeft op readable => exact number.logical readable op
  | logicalRight op readable => exact readable.logical number op

/-- A base that is printed as a division, with a negative exponent. -/
theorem parse_operation_agrees_infinity :
    let power := binary (.arithmetic .exp) (number (-1.0 / 0.0)) (number (-2.0))
    (-1.0 / 0.0 : Float) ≠ -0.0 ∧ Operates (-1.0 / 0.0) power ∧
      ∃ found, parse power.print = .ok found ∧ found.Agrees power := by
  have notZero : (-1.0 / 0.0 : Float) ≠ -0.0 := by decide
  have operates : Operates (-1.0 / 0.0) (binary (.arithmetic .exp) _ (number (-2.0))) :=
    .left _ (readable_number (by decide))
  exact ⟨notZero, operates, parse_operation_agrees _ notZero operates⟩

/-- The text of a quotient does not show that its divisor is the negative zero, and so what
is parsed is the infinity of the other sign. -/
theorem not_agrees_negativeZero :
    let quotient := binary (.arithmetic .div) (number 1.0) (number (-0.0))
    Operates (-0.0) quotient ∧
      ∃ found, parse quotient.print = .ok found ∧ ¬ found.Agrees quotient := by
  have one : Readable (number 1.0) := readable_number (by decide)
  have positive : Readable (binary (.arithmetic .div) (number 1.0) (number 0.0)) :=
    one.binary (readable_number (by decide)) _
  have sameText : (binary (.arithmetic .div) (number 1.0) (number 0.0)).print =
      (binary (.arithmetic .div) (number 1.0) (number (-0.0))).print := by
    decide +kernel
  rcases positive.parse with ⟨found, parsed, agrees⟩
  refine ⟨.right _ one, found, sameText ▸ parsed, fun agrees' => ?_⟩
  let root := Heap.newRoot {} {}
  let world : World := { heap := root.2 }
  have unaware : Library.host.Unaware 0 false world :=
    ⟨Library.host_indifferent, Library.host_leavesAlone 0, nofun⟩
  have alike := (agrees _ 0 0 root.1 false world world unaware unaware (.refl world)).symm.trans
    (agrees' _ 0 0 root.1 false world world unaware unaware (.refl world))
  have quotient : ∀ divisor : Float, divisor = 0.0 ∨ divisor = -0.0 → ∃ after,
      Eval.evaluate Library.host 0 (binary (.arithmetic .div) (number 1.0) (number divisor)) root.1
        false world = .ok (.number (1.0 / divisor)) after := by
    rintro divisor (rfl | rfl)
    · exact ⟨_, rfl⟩
    · exact ⟨_, rfl⟩
  rcases quotient 0.0 (.inl rfl) with ⟨after, run⟩
  rcases quotient (-0.0) (.inr rfl) with ⟨after', run'⟩
  rw [run, run'] at alike
  cases alike with
  | ok same => exact absurd (Value.number.inj same) (by decide)

end ExprScript.Build
