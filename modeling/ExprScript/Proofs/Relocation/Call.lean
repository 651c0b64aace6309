import ExprScript.Eval.Library
import ExprScript.Proofs.Relocation.Evaluation

/-! # Calls of functions from elsewhere

A call does not depend on the node that the function comes from, provided that no function of
the host looks at that. So nothing depends on the number of the tree that is evaluated.
-/

namespace ExprScript

/-- No function of the host depends on the nodes that functions come from, unless by calling
back. -/
def Host.Placeless (host : Host) : Prop :=
  ∀ key function, host key = some function →
    ∀ call : Caller, (∀ ref this args, Relocates (call ref this args) (call ref this args)) →
      ∀ this args, Relocates (function call this args) (function call this args)

namespace Relocates

variable {context : Context}

theorem bindParams (placeless : context.Placeless) (tree : Nat) (path path' : Path) (index : Nat)
    (args : List Value) (params : List Pattern) :
    Relocates (Eval.bindParams context path index args params)
      (Eval.bindParams (context.movedTo tree) path' index args params) := by
  induction params generalizing index args with
  | nil => exact pure _
  | cons param params induction =>
      have bound : ∀ place place' value target, Relocates (do
            let bindings ← Eval.bind context place {} value target
            Eval.modifyHeap fun heap => bindings.entries.foldl
              (fun heap entry => heap.define context.scope entry.1 entry.2) heap
            Eval.bindParams context path (index + 1) args.tail params) (do
            let bindings ← Eval.bind (context.movedTo tree) place' {} value target
            Eval.modifyHeap fun heap => bindings.entries.foldl
              (fun heap entry => heap.define context.scope entry.1 entry.2) heap
            Eval.bindParams (context.movedTo tree) path' (index + 1) args.tail params) := by
        intro place place' value target
        apply bind (Eval.bind_relocates context placeless tree place place' {} value target)
        intro bindings
        exact bind (setVariables bindings (·.define context.scope) fun _ _ _ => rfl) fun _ =>
          induction _ _
      cases param with
      | rest loc argument =>
          rw [Eval.bindParams, Eval.bindParams]
          apply bind (newArray args)
          intro array
          rw [pure_bind, pure_bind]
          exact bound _ _ array argument
      | _ =>
          rw [Eval.bindParams, Eval.bindParams, pure_bind, pure_bind]
          · exact bound _ _ _ _
          · rintro _ _ ⟨⟩
          · rintro _ _ ⟨⟩

variable {call : Caller}

theorem callClosure
    (placeless : ∀ ref this args, Relocates (call ref this args) (call ref this args))
    {closure closure' : Closure} (same : closure.placeless = closure'.placeless)
    (args : List Value) :
    Relocates (Eval.callClosure call closure args) (Eval.callClosure call closure' args) := by
  rcases closure with ⟨tree, path, params, body, scope⟩
  rcases closure' with ⟨tree', path', params', body', scope'⟩
  simp only [Closure.placeless, Closure.mk.injEq, true_and] at same
  rcases same with ⟨rfl, rfl, rfl⟩
  apply bind (newChild _ _)
  intro frame
  have ready : Context.Placeless { call, scope := frame, useMemo := false, tree } :=
    ⟨placeless, rfl⟩
  apply bind (bindParams ready tree' path path' 0 args params)
  intro _
  exact (Eval.eval_relocates _ ready tree' .value (.body :: path) (.body :: path') body).valueOf

theorem callFunction {host : Host} (placeless : host.Placeless) (depth : Nat) (ref : FunctionRef)
    (this : Value) (args : List Value) :
    Relocates (Eval.callFunction host depth ref this args)
      (Eval.callFunction host depth ref this args) := by
  induction depth generalizing ref this args with
  | zero => exact throw _
  | succ depth induction =>
      have found : Relates Eq (fun left right => left.body.placeless = right.body.placeless)
          (Eval.inspect fun heap => heap.function ref)
          (Eval.inspect fun heap => heap.function ref) :=
        Relates.bind heap fun _ _ congruent =>
          Relates.pure (congrArg FunctionValue.body (congruent.function ref))
      apply Relates.bind found
      intro left right same
      rcases left with ⟨_, body, _⟩
      rcases right with ⟨_, body', _⟩
      cases body with
      | native key =>
          cases body' with
          | arrow closure => cases same
          | native key' =>
              cases same
              dsimp only
              split
              · next known => exact placeless key _ known _ induction this args
              · exact raise _ _
      | arrow closure =>
          cases body' with
          | native key => cases same
          | arrow closure' => exact callClosure induction (FunctionBody.arrow.inj same) args

theorem callAny (placeless : ∀ ref this args, Relocates (call ref this args) (call ref this args))
    (function this : Value) (args : List Value) :
    Relocates (Eval.callAny call function this args) (Eval.callAny call function this args) := by
  cases function with
  | function ref => exact placeless ref this args
  | _ => exact raise _ _

end Relocates

/-! ## The library -/

namespace Heap

theorem structuralEqual_placeless (heap : Heap) (first second : Value) :
    heap.placeless.structuralEqual first second = heap.structuralEqual first second :=
  heap.structuralEqual_seen placelessView first second

end Heap

namespace Library

open Relocates

variable {call : Caller}
  (placeless : ∀ ref this args, Relocates (call ref this args) (call ref this args))

include placeless in
theorem mapItems_relocates (function : Value) (index : Nat) (items : List Value) :
    Relocates (mapItems call function index items) (mapItems call function index items) := by
  induction items generalizing index with
  | nil => exact pure _
  | cons item items induction =>
      exact bind (callAny placeless _ _ _) fun _ => bind (induction _) fun _ => pure _

theorem failWith_relocates (kind : ErrorKind) (fallback : String) (this : Value)
    (args : List Value) : Relocates (failWith kind fallback call this args)
      (failWith kind fallback call this args) := by
  apply bind _ fun _ => raise _ _
  cases args with
  | nil => exact pure _
  | cons value values => exact inspect fun heap => heap.toText_placeless value

theorem sum_relocates (this : Value) (args : List Value) :
    Relocates (sum call this args) (sum call this args) := by
  apply Relates.bind heap
  intro left right congruent
  have same : left.toNumber = right.toNumber := by
    funext value
    exact congruent.same (·.toNumber value) fun heap => heap.toNumber_placeless value
  rw [same]
  exact pure _

theorem host_placeless : Host.Placeless host := by
  intro key function found call placeless this args
  unfold host at found
  split at found <;> cases found
  · exact sum_relocates this args
  · exact pure _
  · exact newArray _
  · exact pure _
  · exact bind (note _) fun _ => pure _
  · exact failWith_relocates _ _ this args
  · exact failWith_relocates _ _ this args
  · exact bind (writeProperty _ _ _ _) fun _ => bind (writeProperty _ _ _ _) fun _ => pure _
  · exact pure _
  · exact pure _
  · exact bind (readProperty _ _ _) fun _ => bind (newArray _) fun _ => newArray _
  · exact callAny placeless _ _ _
  · apply bind (spreadValues _ _)
    intro items
    exact bind (mapItems_relocates placeless _ _ _) fun _ => newArray _
  · exact bind (inspect fun heap => heap.ownEntries_placeless _) fun _ => newArray _
  · exact inspect fun heap => by rw [Heap.structuralEqual_placeless]

end Library

/-! ## Whole evaluations -/

theorem Host.Placeless.rootContext {host : Host} (placeless : host.Placeless) (scope : Scope)
    (tree : Nat) : (Eval.rootContext host scope false tree).Placeless :=
  ⟨Relocates.callFunction placeless Eval.callDepth, rfl⟩

end ExprScript
