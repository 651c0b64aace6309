import ExprScript.Eval.Library
import ExprScript.Proofs.Memo.Evaluation

/-! # Remembered results do not show

What a tree remembers is not seen by an evaluation that does not use it, and
using it makes no difference as long as nothing is remembered at first. Calls
are no exception: the body of an arrow function is evaluated without remembered
results, and functions of the host are taken not to evaluate the tree.
-/

namespace ExprScript

open ExprScript.Path World

/-- No function of the host sees or changes what the tree remembers, unless by
calling back. -/
def Host.LeavesAlone (host : Host) (tree : Nat) : Prop :=
  ∀ key function, host key = some function →
    ∀ call : Caller, (∀ ref this args, Neutral tree (call ref this args)) →
      ∀ this args, Neutral tree (function call this args)

namespace Neutral

variable {tree : Nat}

/-! ## Calls -/

/-- What is remembered below a node inside of an arrow function is never asked
for. -/
theorem of_hidden {α : Type} {path : Path} (hidden : ¬ path.Outer) {action : Eval α}
    (simulates : Simulates tree (Below path) false action action) : Neutral tree action := by
  intro before before' alike _
  obtain ⟨same, keeps⟩ := simulates before before' alike (by simp)
  refine ⟨same, fun other outer _ => keeps other outer fun below => ?_⟩
  exact hidden (outer.of_suffix below)

variable {context : Context}

theorem eval (call : ∀ ref this args, Neutral tree (context.call ref this args))
    (unused : context.useMemo = false) {path : Path} (hidden : ¬ path.Outer) (use : Use)
    (expr : Expr) : Neutral tree (Eval.eval context use path expr) := by
  have ready : context.Ready tree path := ⟨call, by simp [unused]⟩
  have simulates := Eval.eval_simulates context use path ready expr
  have same : context.withoutMemo = context := by
    rw [Context.withoutMemo, ← unused]
  rw [same, unused] at simulates
  exact of_hidden hidden simulates

theorem bindPattern (call : ∀ ref this args, Neutral tree (context.call ref this args))
    (unused : context.useMemo = false) {path : Path} (hidden : ¬ path.Outer) (bindings : Record)
    (value : Value) (pattern : Pattern) :
    Neutral tree (Eval.bind context path bindings value pattern) := by
  have ready : context.Ready tree path := ⟨call, by simp [unused]⟩
  have simulates := Eval.bind_simulates context path ready bindings value pattern
  have same : context.withoutMemo = context := by
    rw [Context.withoutMemo, ← unused]
  rw [same, unused] at simulates
  exact of_hidden hidden simulates

theorem bindParams (call : ∀ ref this args, Neutral tree (context.call ref this args))
    (unused : context.useMemo = false) (path : Path) (index : Nat) (args : List Value)
    (params : List Pattern) : Neutral tree (Eval.bindParams context path index args params) := by
  induction params generalizing index args with
  | nil => exact pure _
  | cons param params induction =>
      have hidden : ¬ Outer (.param index :: path) :=
        fun outer => (outer_cons.mp outer).1.2 index rfl
      have hiddenInner : ¬ Outer (.inner :: .param index :: path) :=
        fun outer => hidden (outer_cons.mp outer).2
      cases param with
      | rest loc argument =>
          rw [Eval.bindParams]
          refine bind (newArray _) fun array => ?_
          rw [pure_bind]
          refine bind (bindPattern call unused hiddenInner _ _ _) fun _ => ?_
          exact bind (modifyHeap _) fun _ => induction _ _
      | _ =>
          rw [Eval.bindParams, pure_bind]
          · refine bind (bindPattern call unused hidden _ _ _) fun _ => ?_
            exact bind (modifyHeap _) fun _ => induction _ _
          · simp

theorem callClosure {call : Caller} (neutral : ∀ ref this args, Neutral tree (call ref this args))
    (closure : Closure) (args : List Value) :
    Neutral tree (Eval.callClosure call closure args) := by
  refine bind (allocate _) fun scope => bind (bindParams neutral rfl _ _ _ _) fun _ => ?_
  refine bind (eval neutral rfl ?_ .value closure.body) fun _ => pure _
  exact fun outer => (outer_cons.mp outer).1.1 rfl

theorem callFunction {host : Host} (alone : host.LeavesAlone tree) (depth : Nat)
    (ref : FunctionRef) (this : Value) (args : List Value) :
    Neutral tree (Eval.callFunction host depth ref this args) := by
  induction depth generalizing ref this args with
  | zero => exact throw _
  | succ depth induction =>
      refine bind (inspect _) fun function => ?_
      split
      · exact callClosure induction _ _
      · split
        · next found => exact alone _ _ found _ induction _ _
        · exact raise _ _

end Neutral

/-! ## The library -/

section Library

variable {tree : Nat} {call : Caller}

private theorem callAny_neutral (neutral : ∀ ref this args, Neutral tree (call ref this args))
    (function this : Value) (args : List Value) :
    Neutral tree (Eval.callAny call function this args) := by
  unfold Eval.callAny
  split
  · exact neutral _ _ _
  · exact .raise _ _

private theorem mapItems_neutral (neutral : ∀ ref this args, Neutral tree (call ref this args))
    (function : Value) (index : Nat) (items : List Value) :
    Neutral tree (Library.mapItems call function index items) := by
  induction items generalizing index with
  | nil => exact .pure _
  | cons item items induction =>
      refine .bind (callAny_neutral neutral _ _ _) fun _ => ?_
      exact .bind (induction _) fun _ => .pure _

private theorem failWith_neutral (kind : ErrorKind) (fallback : String) (this : Value)
    (args : List Value) : Neutral tree (Library.failWith kind fallback call this args) := by
  refine .bind ?_ fun _ => .raise _ _
  cases args with
  | nil => exact .pure _
  | cons value values => exact .inspect _

theorem Library.host_leavesAlone (tree : Nat) : Host.LeavesAlone Library.host tree := by
  intro key function found call neutral this args
  unfold Library.host at found
  split at found <;> cases found
  · exact .bind .heap fun _ => .pure _
  · exact .pure _
  · exact .newArray _
  · exact .pure _
  · exact .bind (.note _) fun _ => .pure _
  · exact failWith_neutral _ _ _ _
  · exact failWith_neutral _ _ _ _
  · exact .bind (.writeProperty _ _ _ _) fun _ => .bind (.writeProperty _ _ _ _) fun _ => .pure _
  · exact .pure _
  · exact .pure _
  · exact .bind (.readProperty _ _ _) fun _ => .bind (.newArray _) fun _ => .newArray _
  · exact callAny_neutral neutral _ _ _
  · refine .bind (.spreadValues _ _) fun _ => ?_
    exact .bind (mapItems_neutral neutral _ _ _) fun _ => .newArray _
  · exact .bind (.inspect _) fun _ => .newArray _
  · exact .inspect _

end Library

/-! ## Whole evaluations -/

/-- The world without anything that the tree remembers. -/
def World.forget (world : World) (tree : Nat) : World :=
  { world with memo := world.memo.filter fun entry => entry.1.tree != tree }

theorem World.forget_alike (world : World) (tree : Nat) : Alike tree world (world.forget tree) := by
  refine ⟨rfl, rfl, rfl, fun node other => ?_⟩
  change world.memo.get? node = Memo.get? (world.memo.filter _) node
  induction world.memo with
  | nil => rfl
  | cons entry memo induction =>
      obtain ⟨key, value⟩ := entry
      by_cases same : node = key
      · subst same
        rw [List.filter_cons_of_pos (by simpa using other)]
        exact List.lookup_cons_self.trans List.lookup_cons_self.symm
      · rw [Memo.get?_cons_of_ne same, induction, List.filter_cons]
        split
        · rw [Memo.get?_cons_of_ne same]
        · rfl

/-- An evaluation that uses remembered results, of which there are none at first. -/
theorem Eval.sameResult_of_fresh {host : Host} {tree : Nat} (alone : host.LeavesAlone tree)
    (expr : Expr) (scope : Scope) (useMemo : Bool) {world : World}
    (fresh : useMemo = true → ∀ path, world.memo.get? ⟨tree, path⟩ = none) :
    SameResult tree (evaluate host tree expr scope useMemo world)
      (evaluate host tree expr scope false world) := by
  have ready : Context.Ready tree (rootContext host scope useMemo tree) [] :=
    ⟨Neutral.callFunction alone callDepth, fun _ => ⟨rfl, outer_nil⟩⟩
  have simulates := (eval_simulates (rootContext host scope useMemo tree) .value [] ready
    expr).valueOf world world (Alike.refl tree world) fun used path _ _ => fresh used path
  exact simulates.1

/-- Remembered results do not show in an evaluation that does not use them. If
there are none at first, they do not show in one that uses them either. -/
theorem Eval.evaluate_transparent (host : Host) (tree : Nat) (alone : host.LeavesAlone tree)
    (expr : Expr) (scope : Scope) (world : World) :
    SameResult tree (evaluate host tree expr scope false world)
        (evaluate host tree expr scope false (world.forget tree)) ∧
      ((∀ path, world.memo.get? ⟨tree, path⟩ = none) →
        SameResult tree (evaluate host tree expr scope true world)
          (evaluate host tree expr scope false world)) := by
  have ready : ∀ useMemo, Context.Ready tree (rootContext host scope useMemo tree) [] :=
    fun _ => ⟨Neutral.callFunction alone callDepth, fun _ => ⟨rfl, outer_nil⟩⟩
  have simulates := fun useMemo =>
    (eval_simulates (rootContext host scope useMemo tree) .value [] (ready useMemo) expr).valueOf
  constructor
  · exact (simulates false world (world.forget tree) (world.forget_alike tree) nofun).1
  · intro empty
    have fresh : Fresh tree (Below []) world := fun path _ _ => empty path
    exact (simulates true world world (Alike.refl tree world) fun _ => fresh).1

/-- The call `(n => -n)(7)`: a remembered result of the call itself is not seen,
and the body of the arrow function remembers one on the way. -/
theorem Eval.evaluate_transparent_call :
    let negate : Expr := .arrow {} [.ident { name := "n" }]
      (.unary {} .minus (.ident { name := "n" }))
    let call : Expr :=
      .call {} (.paren {} negate) [.number { value := Float.ofNat 7, raw := "7" }] false
    let (scope, heap) := Heap.newRoot {} {}
    let empty : World := { heap }
    let stale : World := { heap, memo := [(⟨0, []⟩, .null)] }
    Library.host.LeavesAlone 0 ∧ (∀ path, empty.memo.get? ⟨0, path⟩ = none) ∧
      SameResult 0 (evaluate Library.host 0 call scope false stale)
        (evaluate Library.host 0 call scope false (stale.forget 0)) ∧
      SameResult 0 (evaluate Library.host 0 call scope true empty)
        (evaluate Library.host 0 call scope false empty) := by
  have alone := Library.host_leavesAlone 0
  exact ⟨alone, fun _ => rfl, (evaluate_transparent _ 0 alone _ _ _).1,
    (evaluate_transparent _ 0 alone _ _ _).2 fun _ => rfl⟩

end ExprScript
