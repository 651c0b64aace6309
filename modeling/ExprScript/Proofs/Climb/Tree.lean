import ExprScript.Proofs.Grammar.Operator
import Mathlib

/-! # Trees of operators

Operands with binary operators between them can be read as many trees. In one of them
every operator binds at most as tightly as the one to its left, and more loosely than
the one to its right.
-/

namespace ExprScript

/-- Operators over operands. Every operator has its place. -/
inductive OperatorTree where
  | operand (expr : Expr)
  | node (pending : InfixOperator) (left right : OperatorTree)

inductive InfixItem where
  | operand (expr : Expr)
  | operator (pending : InfixOperator)

/-- A first operand, and operators with an operand behind each of them. -/
def infixItems (first : Expr) (rest : List (InfixOperator × Expr)) : List InfixItem :=
  .operand first :: rest.flatMap fun (pending, expr) => [.operator pending, .operand expr]

/-- Whether one of the two is the nullish operator and the other one is another logical
operator. -/
def InfixOp.clashes : InfixOp → InfixOp → Bool
  | .logical op, .logical other => (op == .nullish) != (other == .nullish)
  | _, _ => false

namespace OperatorTree

/-- The expression with a node for every operator. -/
def toExpr : OperatorTree → Expr
  | operand expr => expr
  | node pending left right =>
    let loc := left.toExpr.loc.join right.toExpr.loc
    match pending.op with
    | .binary op => .binary loc op left.toExpr right.toExpr
    | .logical op => .logical loc op left.toExpr right.toExpr

def inorder : OperatorTree → List InfixItem
  | operand expr => [.operand expr]
  | node pending left right => left.inorder ++ .operator pending :: right.inorder

def AtLeast (level : Nat) : OperatorTree → Prop
  | operand _ => True
  | node pending _ _ => level ≤ pending.level

/-- A left child binds at least as tightly as its parent, and a right child binds more
tightly. -/
def Ordered : OperatorTree → Prop
  | operand _ => True
  | node pending left right =>
    left.AtLeast pending.level ∧ right.AtLeast (pending.level + 1) ∧
      left.Ordered ∧ right.Ordered

def clashesBelow (op : InfixOp) : OperatorTree → Bool
  | operand _ => false
  | node pending _ _ => op.clashes pending.op

/-- Whether a nullish operator has another logical operator as a child, or the other way
round. -/
def mixes : OperatorTree → Bool
  | operand _ => false
  | node pending left right =>
    left.clashesBelow pending.op || right.clashesBelow pending.op || left.mixes || right.mixes

variable {tree other left right : OperatorTree} {pending : InfixOperator} {level : Nat}

theorem AtLeast.mono {low high : Nat} (atLeast : tree.AtLeast high) (within : low ≤ high) :
    tree.AtLeast low := by
  cases tree with
  | operand => trivial
  | node pending left right => exact within.trans atLeast

/-! ## There is one such tree -/

theorem Ordered.le_of_mem (ordered : tree.Ordered) (atLeast : tree.AtLeast level)
    (member : .operator pending ∈ tree.inorder) : level ≤ pending.level := by
  induction tree generalizing level with
  | operand expr =>
      rw [inorder, List.mem_singleton] at member
      cases member
  | node root left right inLeft inRight =>
      rcases ordered with ⟨leftAtLeast, rightAtLeast, leftOrdered, rightOrdered⟩
      rcases List.mem_append.mp member with member | member
      · exact inLeft leftOrdered (leftAtLeast.mono atLeast) member
      · rcases List.mem_cons.mp member with equal | member
        · cases equal
          exact atLeast
        · exact inRight rightOrdered (rightAtLeast.mono (Nat.le_succ_of_le atLeast)) member

/-- The root of one tree cannot be among the operators to the left of the root of the
other one. -/
theorem Ordered.not_before {root root' : InfixOperator} {left' right' : OperatorTree}
    {items : List InfixItem} (ordered : (node root left right).Ordered)
    (ordered' : (node root' left' right').Ordered)
    (inLeft : left'.inorder = left.inorder ++ .operator root :: items)
    (inRight : right.inorder = items ++ .operator root' :: right'.inorder) : False := by
  have tighter : root'.level ≤ root.level :=
    ordered'.2.2.1.le_of_mem ordered'.1 (by simp [inLeft])
  have looser : root.level + 1 ≤ root'.level :=
    ordered.2.2.2.le_of_mem ordered.2.1 (by simp [inRight])
  omega

/-- Two ways to divide a list in front of an item: the same one, or one of the two comes
first. -/
theorem append_cons_cases {α : Type} {first first' second second' : List α} {item item' : α}
    (same : first ++ item :: second = first' ++ item' :: second') :
    (first = first' ∧ item = item' ∧ second = second') ∨
      (∃ items, first' = first ++ item :: items ∧ second = items ++ item' :: second') ∨
      (∃ items, first = first' ++ item' :: items ∧ second' = items ++ item :: second) := by
  rcases List.append_eq_append_iff.mp same with ⟨items, left, right⟩ | ⟨items, left, right⟩
  · rcases List.cons_eq_append_iff.mp right with ⟨rfl, equal⟩ | ⟨rest, rfl, equal⟩
    · injection equal with item rest
      exact .inl ⟨by rw [left, List.append_nil], item.symm, rest.symm⟩
    · exact .inr (.inl ⟨rest, left, equal⟩)
  · rcases List.cons_eq_append_iff.mp right with ⟨rfl, equal⟩ | ⟨rest, rfl, equal⟩
    · injection equal with item rest
      exact .inl ⟨by rw [left, List.append_nil], item, rest⟩
    · exact .inr (.inr ⟨rest, left, equal⟩)

theorem Ordered.unique (ordered : tree.Ordered) (ordered' : other.Ordered)
    (same : tree.inorder = other.inorder) : tree = other := by
  have isOperand : ∀ (expr : Expr) (root : InfixOperator) (left right : OperatorTree),
      (operand expr).inorder ≠ (node root left right).inorder := by
    intro expr root left right equal
    have member : InfixItem.operator root ∈ (operand expr).inorder := by
      rw [equal]
      simp [inorder]
    rw [inorder, List.mem_singleton] at member
    cases member
  induction tree generalizing other with
  | operand expr =>
      cases other with
      | operand expr' =>
          cases same
          rfl
      | node root left right => exact absurd same (isOperand expr root left right)
  | node root left right inLeft inRight =>
      cases other with
      | operand expr => exact absurd same.symm (isOperand expr root left right)
      | node root' left' right' =>
          rcases append_cons_cases same with ⟨first, equal, second⟩ | ⟨items, first, second⟩ |
            ⟨items, first, second⟩
          · injection equal with equal
            rw [equal, inLeft ordered.2.2.1 ordered'.2.2.1 first,
              inRight ordered.2.2.2 ordered'.2.2.2 second]
          · exact (ordered.not_before ordered' first second).elim
          · exact (ordered'.not_before ordered first second).elim

end OperatorTree

/-! ## The stack -/

structure Waiting where
  left : OperatorTree
  pending : InfixOperator

/-- The last tree, and those before it that wait, the last of them first. -/
structure OperatorStack where
  top : OperatorTree
  below : List Waiting := []

namespace OperatorStack

def reduce (level : Nat) : List Waiting → OperatorTree → OperatorStack
  | [], top => { top }
  | waiting :: below, top =>
    if waiting.pending.level < level then { top, below := waiting :: below }
    else reduce level below (.node waiting.pending waiting.left top)

def take (stack : OperatorStack) (pending : InfixOperator) (operand : Expr) : OperatorStack :=
  let reduced := reduce pending.level stack.below stack.top
  { top := .operand operand, below := { left := reduced.top, pending } :: reduced.below }

def finish (stack : OperatorStack) : OperatorTree := (reduce 0 stack.below stack.top).top

def waitingItems : List Waiting → List InfixItem
  | [] => []
  | waiting :: below => waitingItems below ++ waiting.left.inorder ++ [.operator waiting.pending]

/-- The operands and operators on the stack, in the order of the source. -/
def items (stack : OperatorStack) : List InfixItem := waitingItems stack.below ++ stack.top.inorder

/-- Among what waits, each operator binds looser than the one above it, and its left
operand at least as tightly. -/
def Rising : Nat → List Waiting → Prop
  | _, [] => True
  | level, waiting :: below =>
    waiting.pending.level < level ∧ waiting.left.Ordered ∧
      waiting.left.AtLeast waiting.pending.level ∧
      Rising waiting.pending.level below

theorem Rising.mono {low high : Nat} {below : List Waiting} (rising : Rising low below)
    (within : low ≤ high) : Rising high below := by
  cases below with
  | nil => trivial
  | cons waiting below => exact ⟨rising.1.trans_le within, rising.2⟩

def Settled (stack : OperatorStack) : Prop :=
  (∃ expr, stack.top = .operand expr) ∧ ∃ level, Rising level stack.below

def takeAll (stack : OperatorStack) : List (InfixOperator × Expr) → OperatorStack
  | [] => stack
  | (pending, operand) :: rest => (stack.take pending operand).takeAll rest

/-- Whether operators are mixed in one of the trees. -/
def mixes (stack : OperatorStack) : Bool :=
  stack.top.mixes || stack.below.any fun waiting => waiting.left.mixes

/-! ## What one operator does -/

section

variable {level : Nat} {below : List Waiting} {top : OperatorTree} {stack : OperatorStack}
  {pending : InfixOperator} {operand : Expr}

theorem items_reduce : (reduce level below top).items = waitingItems below ++ top.inorder := by
  induction below generalizing top with
  | nil => rfl
  | cons waiting below induction =>
      rw [reduce]
      split
      · rfl
      · rw [induction, OperatorTree.inorder, waitingItems]
        simp only [List.append_assoc, List.singleton_append]

theorem items_take :
    (stack.take pending operand).items = stack.items ++ [.operator pending, .operand operand] := by
  have reduced : (reduce pending.level stack.below stack.top).items = stack.items :=
    items_reduce
  rw [← reduced, take, items, items, waitingItems, OperatorTree.inorder]
  simp only [List.append_assoc, List.cons_append, List.nil_append]

theorem ordered_reduce {high : Nat} (ordered : top.Ordered) (atLeast : top.AtLeast high)
    (rising : Rising high below) (within : level ≤ high) :
    (reduce level below top).top.Ordered ∧ (reduce level below top).top.AtLeast level ∧
      Rising level (reduce level below top).below := by
  induction below generalizing top high with
  | nil => exact ⟨ordered, atLeast.mono within, trivial⟩
  | cons waiting below induction =>
      rcases rising with ⟨looser, leftOrdered, leftAtLeast, rising⟩
      rw [reduce]
      split
      · next isLooser =>
          exact ⟨ordered, atLeast.mono within, isLooser, leftOrdered, leftAtLeast, rising⟩
      · next isTighter =>
          apply induction _ _ rising (Nat.not_lt.mp isTighter)
          · exact ⟨leftAtLeast, atLeast.mono looser, leftOrdered, ordered⟩
          · exact le_refl waiting.pending.level

theorem Settled.reduce (settled : stack.Settled) (level : Nat) :
    (OperatorStack.reduce level stack.below stack.top).top.Ordered ∧
      (OperatorStack.reduce level stack.below stack.top).top.AtLeast level ∧
      Rising level (OperatorStack.reduce level stack.below stack.top).below := by
  rcases settled with ⟨⟨expr, top⟩, high, rising⟩
  apply ordered_reduce _ _ (rising.mono (le_max_right level high)) (le_max_left level high)
  · rw [top]
    trivial
  · rw [top]
    trivial

theorem Settled.take (settled : stack.Settled) (pending : InfixOperator) (operand : Expr) :
    (stack.take pending operand).Settled := by
  rcases settled.reduce pending.level with ⟨ordered, atLeast, rising⟩
  exact ⟨⟨operand, rfl⟩, pending.level + 1, Nat.lt_succ_self _, ordered, atLeast, rising⟩

theorem Settled.takeAll (settled : stack.Settled) (rest : List (InfixOperator × Expr)) :
    (stack.takeAll rest).Settled := by
  induction rest generalizing stack with
  | nil => exact settled
  | cons next rest induction => exact induction (settled.take next.1 next.2)

theorem items_takeAll {rest : List (InfixOperator × Expr)} : (stack.takeAll rest).items =
    stack.items ++ rest.flatMap fun (pending, expr) => [.operator pending, .operand expr] := by
  induction rest generalizing stack with
  | nil => exact (List.append_nil _).symm
  | cons next rest induction =>
      rw [OperatorStack.takeAll, induction, items_take, List.flatMap_cons, List.append_assoc]

theorem reduce_zero : (reduce 0 below top).below = [] := by
  induction below generalizing top with
  | nil => rfl
  | cons waiting below induction => rw [reduce, if_neg (Nat.not_lt_zero _), induction]

theorem reduce_zero_reduce :
    reduce 0 (reduce level below top).below (reduce level below top).top = reduce 0 below top := by
  induction below generalizing top with
  | nil => rfl
  | cons waiting below induction =>
      rw [reduce]
      split
      · rfl
      · rw [induction, reduce, if_neg (Nat.not_lt_zero _)]

theorem Settled.finish (settled : stack.Settled) :
    stack.finish.Ordered ∧ stack.finish.inorder = stack.items := by
  constructor
  · exact (settled.reduce 0).1
  · have reduced : (OperatorStack.reduce 0 stack.below stack.top).items = stack.items :=
      items_reduce
    rwa [items, reduce_zero] at reduced

theorem mixes_reduce (level : Nat) (mixes : ({ top, below } : OperatorStack).mixes = true) :
    (reduce level below top).mixes = true := by
  induction below generalizing top with
  | nil => exact mixes
  | cons waiting below induction =>
      rw [reduce]
      split
      · exact mixes
      · apply induction
        simp only [OperatorStack.mixes, OperatorTree.mixes, List.any_cons,
          Bool.or_eq_true] at mixes ⊢
        tauto

theorem mixes_take : (stack.take pending operand).mixes =
    (reduce pending.level stack.below stack.top).mixes := rfl

theorem mixes_takeAll {rest : List (InfixOperator × Expr)} (mixes : stack.mixes = true) :
    (stack.takeAll rest).mixes = true := by
  induction rest generalizing stack with
  | nil => exact mixes
  | cons next rest induction => exact induction (mixes_take.trans (mixes_reduce _ mixes))

theorem mixes_finish (level : Nat) (mixes : (reduce level stack.below stack.top).mixes = true) :
    stack.finish.mixes = true := by
  have reduced := mixes_reduce 0 mixes
  rwa [reduce_zero_reduce, OperatorStack.mixes, reduce_zero, List.any_nil, Bool.or_false] at reduced

end

/-! ## The two stacks of the parser -/

def toClimb (stack : OperatorStack) : Climb where
  operands := stack.top.toExpr :: stack.below.map fun waiting => waiting.left.toExpr
  operators := stack.below.map fun waiting => waiting.pending.stacked

def Plain (items : List InfixItem) : Prop :=
  ∀ expr, .operand expr ∈ items → expr.kind ≠ .logicalExpression

/-- There is the given result unless operators are mixed; if they are, there is an error at
one of them. -/
structure Unmixed {α : Type} (items : List InfixItem) (mixes : Bool) (result : Except Error α)
    (value : α) : Prop where
  ok : mixes = false → result = .ok value
  error : mixes = true → ∃ pending, .operator pending ∈ items ∧
    result = .error { cause := .mixedNullish, position := pending.position }

end OperatorStack

namespace OperatorStack

variable {level : Nat} {below : List Waiting} {top : OperatorTree} {stack : OperatorStack}
  {pending : InfixOperator} {operand : Expr}

theorem Plain.mono {items others : List InfixItem} (plain : Plain others)
    (within : ∀ item ∈ items, item ∈ others) : Plain items :=
  fun expr member => plain expr (within _ member)

theorem Plain.of_takeAll (rest : List (InfixOperator × Expr))
    (plain : Plain (stack.takeAll rest).items) : Plain stack.items := by
  rw [items_takeAll] at plain
  exact plain.mono fun item => List.mem_append_left _

theorem unmixed_of_takeAll (rest : List (InfixOperator × Expr))
    (unmixed : (stack.takeAll rest).mixes = false) : stack.mixes = false := by
  by_contra mixes
  rw [mixes_takeAll (Bool.eq_true_of_not_eq_false mixes)] at unmixed
  cases unmixed

theorem conflictsWith_toExpr {tree : OperatorTree} (plain : Plain tree.inorder) (op : LogicalOp) :
    op.conflictsWith tree.toExpr = tree.clashesBelow (.logical op) := by
  cases tree with
  | operand expr =>
      have notLogical := plain expr (List.mem_singleton_self _)
      cases expr with
      | logical => exact absurd rfl notLogical
      | _ => rfl
  | node pending left right =>
      rw [OperatorTree.toExpr, OperatorTree.clashesBelow]
      cases pending.op with
      | binary => rfl
      | logical other => cases op <;> cases other <;> rfl

theorem join_toExpr {left right : OperatorTree} (plain : Plain left.inorder)
    (plain' : Plain right.inorder) (pending : InfixOperator) :
    Unmixed [.operator pending]
      (left.clashesBelow pending.op || right.clashesBelow pending.op)
      (pending.stacked.join left.toExpr right.toExpr) (OperatorTree.node pending left right).toExpr := by
  rw [pending.join_stacked, OperatorTree.toExpr]
  cases pending.op with
  | binary op =>
      have none : ∀ tree : OperatorTree, tree.clashesBelow (.binary op) = false := by
        intro tree
        cases tree <;> rfl
      rw [none, none]
      exact ⟨fun _ => rfl, nofun⟩
  | logical op =>
      dsimp only
      rw [conflictsWith_toExpr plain, conflictsWith_toExpr plain']
      constructor
      · intro unmixed
        simp only [unmixed]
        rfl
      · intro mixed
        simp only [mixed]
        exact ⟨pending, List.mem_singleton_self _, rfl⟩

/-- The parser reduces its stacks as the stack of trees is reduced. -/
theorem reduceFrom_toClimb (level : Nat) (plain : Plain ({ top, below } : OperatorStack).items)
    (unmixed : ({ top, below } : OperatorStack).mixes = false) :
    Unmixed ({ top, below } : OperatorStack).items (reduce level below top).mixes
      (Climb.reduceFrom level ({ top, below } : OperatorStack).toClimb.operators
        ({ top, below } : OperatorStack).toClimb.operands)
      (reduce level below top).toClimb := by
  induction below generalizing top with
  | nil =>
      refine ⟨fun _ => rfl, fun mixes => ?_⟩
      rw [reduce, unmixed] at mixes
      cases mixes
  | cons waiting below induction =>
      let joined : OperatorStack := { top := .node waiting.pending waiting.left top, below }
      have same : joined.items = ({ top, below := waiting :: below } : OperatorStack).items := by
        simp only [joined, items, waitingItems, OperatorTree.inorder, List.append_assoc,
          List.singleton_append]
      rw [← same] at plain ⊢
      have left : Plain waiting.left.inorder :=
        plain.mono (by simp +contextual [joined, items, OperatorTree.inorder])
      have right : Plain top.inorder :=
        plain.mono (by simp +contextual [joined, items, OperatorTree.inorder])
      have joins := join_toExpr left right waiting.pending
      simp only [toClimb, List.map_cons, Climb.reduceFrom]
      rw [reduce, waiting.pending.precedence_stacked]
      split
      · refine ⟨fun _ => rfl, fun mixes => ?_⟩
        rw [unmixed] at mixes
        cases mixes
      · have mixed : joined.mixes = (waiting.left.clashesBelow waiting.pending.op ||
            top.clashesBelow waiting.pending.op) := by
          simp only [OperatorStack.mixes, List.any_cons, Bool.or_eq_false_iff] at unmixed
          simp only [joined, OperatorStack.mixes, OperatorTree.mixes, unmixed, Bool.or_false]
        rw [← mixed] at joins
        cases clash : joined.mixes with
        | false =>
            rw [Climb.reduceTop, joins.ok clash]
            exact induction plain clash
        | true =>
            rcases joins.error clash with ⟨pending, member, join⟩
            rw [List.mem_singleton] at member
            cases member
            have isMixed := mixes_reduce level clash
            refine ⟨fun isUnmixed => ?_, fun _ => ⟨waiting.pending, ?_, ?_⟩⟩
            · rw [isMixed] at isUnmixed
              cases isUnmixed
            · simp [joined, items, OperatorTree.inorder]
            · rw [Climb.reduceTop, join]
              rfl

def shifted (stack : OperatorStack) (pending : InfixOperator) : Climb :=
  let reduced := (reduce pending.level stack.below stack.top).toClimb
  { reduced with operators := pending.stacked :: reduced.operators }

theorem shift_toClimb (plain : Plain stack.items) (unmixed : stack.mixes = false)
    (pending : InfixOperator) :
    Unmixed stack.items (reduce pending.level stack.below stack.top).mixes
      (stack.toClimb.shift pending.stacked) (stack.shifted pending) := by
  have reduced := reduceFrom_toClimb pending.level plain unmixed
  constructor
  · intro isUnmixed
    rw [Climb.shift, pending.precedence_stacked, reduced.ok isUnmixed]
    rfl
  · intro isMixed
    rcases reduced.error isMixed with ⟨mixed, member, run⟩
    refine ⟨mixed, member, ?_⟩
    rw [Climb.shift, pending.precedence_stacked, run]
    rfl

theorem finish_toClimb (plain : Plain stack.items) (unmixed : stack.mixes = false)
    (position : Position) :
    Unmixed stack.items stack.finish.mixes (stack.toClimb.finish position) stack.finish.toExpr := by
  have reduced := reduceFrom_toClimb 0 plain unmixed
  have last : (reduce 0 stack.below stack.top).mixes = stack.finish.mixes := by
    rw [OperatorStack.mixes, reduce_zero, List.any_nil, Bool.or_false, finish]
  rw [last] at reduced
  constructor
  · intro isUnmixed
    rw [Climb.finish, reduced.ok isUnmixed]
    rfl
  · intro isMixed
    rcases reduced.error isMixed with ⟨pending, member, run⟩
    refine ⟨pending, member, ?_⟩
    rw [Climb.finish, run]
    rfl

end OperatorStack

def operatorTree (first : Expr) (rest : List (InfixOperator × Expr)) : OperatorTree :=
  (({ top := .operand first } : OperatorStack).takeAll rest).finish

/-- The tree is the ordered one over the operands and operators. -/
structure OperatorTree.Orders (tree : OperatorTree) (first : Expr)
    (rest : List (InfixOperator × Expr)) : Prop where
  inorder : tree.inorder = infixItems first rest
  ordered : tree.Ordered
  unique : ∀ other : OperatorTree, other.inorder = infixItems first rest → other.Ordered →
    other = tree

theorem operatorTree_orders (first : Expr) (rest : List (InfixOperator × Expr)) :
    (operatorTree first rest).Orders first rest := by
  have settled : ({ top := .operand first } : OperatorStack).Settled := ⟨⟨first, rfl⟩, 0, trivial⟩
  rcases (settled.takeAll rest).finish with ⟨ordered, inorder⟩
  have inorder : (operatorTree first rest).inorder = infixItems first rest :=
    inorder.trans OperatorStack.items_takeAll
  refine ⟨inorder, ordered, fun other same ordered' => ?_⟩
  exact ordered'.unique ordered (same.trans inorder.symm)

theorem plain_infixItems {first : Expr} {rest : List (InfixOperator × Expr)}
    (notLogical : first.kind ≠ .logicalExpression)
    (others : ∀ next ∈ rest, next.2.kind ≠ .logicalExpression) :
    OperatorStack.Plain (infixItems first rest) := by
  intro expr member
  rcases List.mem_cons.mp member with equal | member
  · cases equal
    exact notLogical
  · rcases List.mem_flatMap.mp member with ⟨next, inside, equal⟩
    simp only [List.mem_cons, reduceCtorEq, InfixItem.operand.injEq, List.not_mem_nil, or_false,
      false_or] at equal
    rw [equal]
    exact others next inside

end ExprScript
