import ExprScript.Proofs.Build.Reparse
import ExprScript.Proofs.Shown.Call
import ExprScript.Proofs.Tree.KeyNames

/-! # Trees that are read as they are shown

The text of such a tree is parsed, and what is parsed shows the same as the tree. Numbers with
a sign and numbers that are not finite are written as operations, so a tree need not be in the
form of its text. What is built from readable trees by operations, members and objects is
readable again.
-/

namespace ExprScript

namespace Build

/-- The tree is written in a form that is read again, and it shows the parentheses that the
printer adds. -/
structure Stable (tree : Expr) : Prop extends Written .operand tree where
  canonical : tree.canonical.shown = tree.shown

def Readable (expr : Expr) : Prop := ∃ tree, Stable tree ∧ tree.shown = expr.shown

variable {expr tree left right owner argument : Expr}

/-! ## Reading -/

theorem Stable.parse (stable : Stable tree) (same : tree.shown = expr.shown) :
    ∃ found, parse expr.print = .ok found ∧ found.erase = tree.canonical.erase ∧
      found.shown = expr.shown := by
  have operand : tree.Operand Precedence.sequence :=
    ⟨stable.notSpread rfl, .inl tree.sequence_le_precedence⟩
  have text : tree.print = expr.print := by rw [← tree.print_shown, same, expr.print_shown]
  rcases parse_print stable.writable operand with ⟨found, parsed, equal, -⟩
  rw [text] at parsed
  refine ⟨found, parsed, equal, ?_⟩
  calc found.shown
      = found.erase.shown := found.shown_erase.symm
    _ = tree.canonical.erase.shown := by rw [equal]
    _ = tree.canonical.shown := tree.canonical.shown_erase
    _ = tree.shown := stable.canonical
    _ = expr.shown := same

theorem Readable.parse (readable : Readable expr) :
    ∃ found, parse expr.print = .ok found ∧ found.Agrees expr := by
  rcases readable with ⟨tree, stable, same⟩
  rcases stable.parse same with ⟨found, parsed, -, shown⟩
  exact ⟨found, parsed, Expr.agrees_of_shown shown⟩

theorem Built.readable (built : Built .operand expr) (bare : expr.Everywhere bareBodies) :
    Readable expr := by
  have written := built.faithful.written
  exact ⟨expr, ⟨written, Expr.shown_canonical (plainNumbers_of_writable written.writable) bare⟩,
    rfl⟩

/-! ## Operands -/

theorem Stable.operand (stable : Stable tree) (needed : Bool) :
    (operand needed tree).canonical.shown = (operand needed tree).shown := by
  cases needed with
  | false => exact stable.canonical
  | true => exact congrArg (Expr.paren {}) stable.canonical

end Build

/-- Operands that show the same do so in the parentheses that they are built with. -/
theorem Slot.enclosed {demands : Expr → Bool} (slot : Slot demands) {tree expr : Expr}
    (same : tree.shown = expr.shown) :
    (Build.operand (demands tree) tree).shown.grouped
        (demands (Build.operand (demands tree) tree)) =
      (Build.operand (demands expr) expr).shown.grouped
        (demands (Build.operand (demands expr) expr)) :=
  calc
    _ = tree.shown.grouped (demands tree) := slot.regrouped rfl
    _ = expr.shown.grouped (demands expr) := slot.ungrouped same
    _ = _ := (slot.regrouped rfl).symm

namespace Build

variable {expr tree left right owner argument : Expr}

/-! ## Operations -/

theorem precedence_upTo (level : Nat) (expr : Expr) :
    decide (expr.precedence ≤ level) = decide (expr.precedence < level + 1) :=
  decide_eq_decide.mpr Nat.lt_succ_iff.symm

theorem Stable.unary (stable : Stable argument) (op : UnaryOp) : Stable (unary op argument) := by
  refine ⟨stable.toWritten.unary op, ?_⟩
  rw [Build.unary]
  simp only [Expr.canonical, Expr.shown, Slot.operand.regrouped (stable.operand _)]

theorem Readable.unary (readable : Readable argument) (op : UnaryOp) :
    Readable (unary op argument) := by
  rcases readable with ⟨tree, stable, same⟩
  refine ⟨_, stable.unary op, ?_⟩
  simp only [Build.unary, Expr.shown, Slot.operand.enclosed same]

theorem Stable.binary (first : Stable left) (second : Stable right) (op : BinaryOp) :
    Stable (binary op left right) := by
  have bound := op.precedence_le
  refine ⟨first.toWritten.binary second.toWritten op, ?_⟩
  rw [Build.binary]
  split
  · next isPower =>
      simp only [Expr.canonical, Expr.shown, if_pos isPower,
        (Slot.level Precedence.postfixed (by decide)).regrouped (first.operand _),
        (Slot.level op.precedence (by omega)).regrouped (second.operand _)]
  · next notPower =>
      simp only [Expr.canonical, Expr.shown, if_neg notPower,
        (Slot.level op.precedence (by omega)).regrouped (first.operand _),
        (Slot.level (op.precedence + 1) bound).regrouped (second.operand _)]

theorem Readable.binary (first : Readable left) (second : Readable right) (op : BinaryOp) :
    Readable (binary op left right) := by
  have bound := op.precedence_le
  rcases first with ⟨tree, stable, same⟩
  rcases second with ⟨tree', stable', same'⟩
  refine ⟨_, stable.binary stable' op, ?_⟩
  by_cases isPower : op = .arithmetic .exp
  · simp only [Build.binary, if_pos isPower, Expr.shown, precedence_upTo]
    congr 1
    · exact (Slot.level (Precedence.unary + 1) (by decide)).enclosed same
    · subst isPower
      exact (Slot.level Precedence.exponent (by decide)).enclosed same'
  · simp only [Build.binary, if_neg isPower, Expr.shown, precedence_upTo,
      (Slot.level op.precedence (by omega)).enclosed same,
      (Slot.level (op.precedence + 1) bound).enclosed same']

theorem Stable.logical (first : Stable left) (second : Stable right) (op : LogicalOp) :
    Stable (logical op left right) := by
  have bound := op.precedence_le
  refine ⟨first.toWritten.logical second.toWritten op, ?_⟩
  rw [Build.logical]
  simp only [Expr.canonical, Expr.shown,
    (Slot.logical op op.precedence (by omega)).regrouped (first.operand _),
    (Slot.logical op (op.precedence + 1) bound).regrouped (second.operand _)]

theorem Readable.logical (first : Readable left) (second : Readable right) (op : LogicalOp) :
    Readable (logical op left right) := by
  have bound := op.precedence_le
  rcases first with ⟨tree, stable, same⟩
  rcases second with ⟨tree', stable', same'⟩
  refine ⟨_, stable.logical stable' op, ?_⟩
  simp only [Build.logical, Expr.shown, precedence_upTo, Bool.or_comm _ (op.conflictsWith _),
    (Slot.logical op op.precedence (by omega)).enclosed same,
    (Slot.logical op (op.precedence + 1) bound).enclosed same']

/-! ## Members and objects -/

theorem chainStart_eq (expr : Expr) :
    chainStart expr = operand (expr.isNumber || expr.precedence < Precedence.call) expr := by
  rw [chainStart, Bool.or_comm]
  cases expr <;> rfl

theorem Stable.member {name : String} {optional : Bool} (stable : Stable owner)
    (plain : '\\' ∉ name.toList) (built : member owner name optional = .ok expr) :
    Stable expr := by
  refine ⟨written_member stable.toWritten plain built, ?_⟩
  rcases member_eq_ok built with ⟨-, rfl⟩
  rw [chainStart_eq]
  simp only [Expr.canonical, Expr.shown, Slot.owner.regrouped (stable.operand _)]

theorem Readable.member {name : String} {optional : Bool} (readable : Readable owner)
    (plain : '\\' ∉ name.toList) (built : member owner name optional = .ok expr) :
    ∃ start, Stable (.member {} start (.name { name }) optional) ∧
      (Expr.member {} start (.name { name }) optional).shown = expr.shown := by
  rcases readable with ⟨tree, stable, same⟩
  rcases member_eq_ok built with ⟨accepted, rfl⟩
  have member : Build.member tree name optional =
      .ok (.member {} (chainStart tree) (.name { name }) optional) := if_pos accepted
  refine ⟨chainStart tree, stable.member plain member, ?_⟩
  simp only [chainStart_eq, Expr.shown, Slot.owner.enclosed same]

theorem shownProperties_field (key : String) (value : Expr) (properties : List Property) :
    shownProperties (field key value :: properties) =
      .field {} (fieldKey key).shown
          ((item value).shown.grouped ((item value).precedence < Precedence.assignment)) false ::
        shownProperties properties := by
  rw [field, shownProperties]
  rfl

theorem Stable.object {fields : List (String × Expr)}
    (plain : ∀ field ∈ fields, isIdentifier field.1 = true → '\\' ∉ field.1.toList)
    (holds : ∀ field ∈ fields, Stable field.2) : Stable (object fields) := by
  refine ⟨Written.object plain fun field member => (holds field member).toWritten, ?_⟩
  apply congrArg (Expr.object {})
  induction fields with
  | nil => rfl
  | cons first fields induction =>
      rcases first with ⟨key, value⟩
      rw [List.forall_mem_cons] at plain holds
      have later := induction plain.2 holds.2
      have sameValue := Slot.item.regrouped
        (holds.1.operand (value.precedence < Precedence.assignment))
      rw [List.map_cons, shownProperties_field]
      change shownProperties (canonicalProperties
        (.field {} (fieldKey key) (item value) false :: _)) = _
      rw [canonicalProperties, shownProperties, canonical_fieldKey, later]
      exact congrArg (Property.field {} (fieldKey key).shown · false :: _) sameValue

/-- The stable tree is an object with the same keys. -/
theorem Readable.object {fields : List (String × Expr)}
    (plain : ∀ field ∈ fields, isIdentifier field.1 = true → '\\' ∉ field.1.toList)
    (holds : ∀ field ∈ fields, Readable field.2) :
    ∃ trees : List (String × Expr), trees.map Prod.fst = fields.map Prod.fst ∧
      Stable (object trees) ∧ (object trees).shown = (object fields).shown := by
  have chosen : ∃ trees : List (String × Expr), trees.map Prod.fst = fields.map Prod.fst ∧
      (∀ tree ∈ trees, Stable tree.2) ∧
        shownProperties (trees.map fun entry => field entry.1 entry.2) =
          shownProperties (fields.map fun entry => field entry.1 entry.2) := by
    clear plain
    induction fields with
    | nil => exact ⟨[], rfl, List.forall_mem_nil _, rfl⟩
    | cons first fields induction =>
        rcases first with ⟨key, value⟩
        rw [List.forall_mem_cons] at holds
        rcases induction holds.2 with ⟨trees, keys, stable, same⟩
        rcases holds.1 with ⟨tree, stable', same'⟩
        refine ⟨(key, tree) :: trees, congrArg (key :: ·) keys, ?_, ?_⟩
        · exact List.forall_mem_cons.mpr ⟨stable', stable⟩
        · have sameValue : (item tree).shown.grouped
              ((item tree).precedence < Precedence.assignment) =
                (item value).shown.grouped ((item value).precedence < Precedence.assignment) :=
            Slot.item.enclosed same'
          rw [List.map_cons, List.map_cons, shownProperties_field, shownProperties_field, same,
            sameValue]
  rcases chosen with ⟨trees, keys, stable, same⟩
  refine ⟨trees, keys, Stable.object ?_ stable, congrArg (Expr.object {}) same⟩
  intro tree member
  have within : tree.1 ∈ fields.map Prod.fst := keys ▸ List.mem_map_of_mem member
  rcases List.mem_map.mp within with ⟨field, member', key⟩
  exact key ▸ plain field member'

end Build

end ExprScript
