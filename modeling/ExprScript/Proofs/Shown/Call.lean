import ExprScript.Proofs.Memo.Transparency
import ExprScript.Proofs.Relocation.Call
import ExprScript.Proofs.Shown.Evaluation

/-! # Calls of functions that show the same

Two functions with the same text do the same when they are called, provided that no function
of the host can tell them apart. So two trees that show the same have the same value.
-/

namespace ExprScript

/-- No function of the host can tell functions apart that show the same, unless by calling
them. -/
def Host.Indifferent (host : Host) : Prop :=
  ∀ key function, host key = some function →
    ∀ call : Caller, (∀ ref this args, Mirrors (call ref this args) (call ref this args)) →
      ∀ this args, Mirrors (function call this args) (function call this args)

namespace Mirrors

variable {context : Context}

theorem bindParams (indifferent : context.Indifferent) (tree : Nat) (path path' : Path)
    (index : Nat) (args : List Value) (params : List Pattern) :
    Mirrors (Eval.bindParams context path index args params)
      (Eval.bindParams (context.movedTo tree) path' index args (shownPatterns params)) := by
  induction params generalizing index args with
  | nil => exact pure _
  | cons param params induction =>
      have bound : ∀ place place' value target, Mirrors (do
            let bindings ← Eval.bind context place {} value target
            Eval.modifyHeap fun heap => bindings.entries.foldl
              (fun heap entry => heap.define context.scope entry.1 entry.2) heap
            Eval.bindParams context path (index + 1) args.tail params) (do
            let bindings ← Eval.bind (context.movedTo tree) place' {} value target.shown
            Eval.modifyHeap fun heap => bindings.entries.foldl
              (fun heap entry => heap.define context.scope entry.1 entry.2) heap
            Eval.bindParams (context.movedTo tree) path' (index + 1) args.tail
              (shownPatterns params)) := by
        intro place place' value target
        apply bind (Eval.bind_shown context indifferent tree place place' {} value target)
        intro bindings
        exact bind (setVariables bindings (·.define context.scope) fun _ _ _ => rfl) fun _ =>
          induction _ _
      rw [shownPatterns]
      cases param with
      | rest loc argument =>
          rw [Pattern.shown, Eval.bindParams, Eval.bindParams]
          apply bind (newArray args)
          intro array
          rw [pure_bind, pure_bind]
          exact bound _ _ array argument
      | _ =>
          rw [Eval.bindParams, Eval.bindParams, pure_bind, pure_bind]
          · exact bound _ _ _ _
          · rintro _ _ ⟨⟩
          · rintro _ _ ⟨⟩

variable {call : Caller}
  (mirrors : ∀ ref this args, Mirrors (call ref this args) (call ref this args))

include mirrors

theorem callClosure_shown (closure : Closure) (args : List Value) :
    Mirrors (Eval.callClosure call closure args) (Eval.callClosure call closure.shown args) := by
  apply bind (newChild _ _)
  intro frame
  have ready : Context.Indifferent
      { call, scope := frame, useMemo := false, tree := closure.tree } :=
    ⟨mirrors, rfl⟩
  apply bind (bindParams ready 0 closure.path [] 0 args closure.params)
  intro _
  exact (Eval.eval_shown _ ready 0 .value (.body :: closure.path) [.body] closure.body).valueOf

theorem callClosure {closure closure' : Closure} (same : closure.shown = closure'.shown)
    (args : List Value) :
    Mirrors (Eval.callClosure call closure args) (Eval.callClosure call closure' args) := by
  have first := callClosure_shown mirrors closure args
  have second := callClosure_shown mirrors closure' args
  rw [same] at first
  exact first.trans second.symm

theorem callAny (function this : Value) (args : List Value) :
    Mirrors (Eval.callAny call function this args) (Eval.callAny call function this args) := by
  cases function with
  | function ref => exact mirrors ref this args
  | _ => exact raise _ _ _

omit mirrors

theorem callFunction {host : Host} (indifferent : host.Indifferent) (depth : Nat)
    (ref : FunctionRef) (this : Value) (args : List Value) :
    Mirrors (Eval.callFunction host depth ref this args)
      (Eval.callFunction host depth ref this args) := by
  induction depth generalizing ref this args with
  | zero => exact Follows.throw rfl
  | succ depth induction =>
      have found : Follows (fun left right => left.body.shown = right.body.shown)
          (Eval.inspect fun heap => heap.function ref)
          (Eval.inspect fun heap => heap.function ref) :=
        Follows.bind heap fun _ _ akin =>
          Follows.pure (congrArg FunctionValue.body (akin.function ref) :)
      apply Follows.bind found
      intro left right same
      rcases left with ⟨_, body, _⟩
      rcases right with ⟨_, body', _⟩
      cases body with
      | native key =>
          cases body' with
          | arrow closure => cases same
          | native key' =>
              cases same
              dsimp only
              split
              · next known => exact indifferent key _ known _ induction this args
              · exact raise _ _ _
      | arrow closure =>
          cases body' with
          | native key => cases same
          | arrow closure' => exact callClosure induction (FunctionBody.arrow.inj same) args

end Mirrors

/-! ## The library -/

namespace Library

open Mirrors

section

variable {call : Caller}
  (mirrors : ∀ ref this args, Mirrors (call ref this args) (call ref this args))

include mirrors in
theorem mapItems_mirrors (function : Value) (index : Nat) (items : List Value) :
    Mirrors (mapItems call function index items) (mapItems call function index items) := by
  induction items generalizing index with
  | nil => exact pure _
  | cons item items induction =>
      exact bind (callAny mirrors _ _ _) fun _ => bind (induction _) fun _ => pure _

theorem failWith_mirrors (kind : ErrorKind) (fallback : String) (this : Value)
    (args : List Value) : Mirrors (failWith kind fallback call this args)
      (failWith kind fallback call this args) := by
  apply bind _ fun _ => raise _ _ _
  cases args with
  | nil => exact pure _
  | cons value values => exact inspect fun heap => heap.toText_seen _ value

theorem sum_mirrors (this : Value) (args : List Value) :
    Mirrors (sum call this args) (sum call this args) := by
  apply Follows.bind heap
  intro left right akin
  have same : left.toNumber = right.toNumber := by
    funext value
    exact akin.same (·.toNumber value) fun heap => heap.toNumber_seen _ value
  rw [same]
  exact pure _

end

theorem host_indifferent : Host.Indifferent host := by
  intro key function found call mirrors this args
  unfold host at found
  split at found <;> cases found
  · exact sum_mirrors this args
  · exact pure _
  · exact newArray _
  · exact pure _
  · exact bind (note _) fun _ => pure _
  · exact failWith_mirrors _ _ this args
  · exact failWith_mirrors _ _ this args
  · exact bind (writeProperty _ _ _ _ _) fun _ => bind (writeProperty _ _ _ _ _) fun _ => pure _
  · exact pure _
  · exact pure _
  · exact bind (readProperty _ _ _ _) fun _ => bind (newArray _) fun _ => newArray _
  · exact callAny mirrors _ _ _
  · apply bind (spreadValues _ _ _)
    intro items
    exact bind (mapItems_mirrors mirrors _ _ _) fun _ => newArray _
  · exact bind (inspect fun heap => heap.ownEntries_seen _ _) fun _ => newArray _
  · exact inspect fun heap => by rw [Heap.structuralEqual_seen]

end Library

/-! ## Whole evaluations -/

theorem SameResult.endsAlike {tree : Nat} {α : Type}
    {result result' : EStateM.Result Failure World α}
    (same : SameResult tree result result') : EndsAlike Eq result result' := by
  have akin : ∀ {left right : World}, World.Alike tree left right → World.Akin left right :=
    fun alike => ⟨congrArg _ alike.heap, congrArg _ alike.log, alike.nextTree⟩
  cases same with
  | ok value alike => exact .ok rfl (akin alike)
  | error failure alike => exact .error rfl (akin alike)

namespace Eval

theorem evaluate_mirrors {host : Host} (indifferent : host.Indifferent) {expr expr' : Expr}
    (same : expr.shown = expr'.shown) (tree tree' : Nat) (scope : Scope) :
    Mirrors (evaluate host tree expr scope false) (evaluate host tree' expr' scope false) := by
  have ready : ∀ tree, (rootContext host scope false tree).Indifferent :=
    fun tree => ⟨Mirrors.callFunction indifferent callDepth, rfl⟩
  have first := (eval_shown _ (ready tree) 0 .value [] [] expr).valueOf
  have second := (eval_shown _ (ready tree') 0 .value [] [] expr').valueOf
  rw [same] at first
  exact first.trans second.symm

end Eval

/-- The functions of the host see neither how functions are written nor what is remembered
about the tree, and nothing is remembered that the evaluation could use. -/
structure Host.Unaware (host : Host) (tree : Nat) (useMemo : Bool) (world : World) : Prop where
  indifferent : host.Indifferent
  alone : host.LeavesAlone tree
  fresh : useMemo = true → ∀ path, world.memo.get? ⟨tree, path⟩ = none

/-- In every scope the two trees have the same value and the same effects, or they fail
alike. -/
def Expr.Agrees (left right : Expr) : Prop :=
  ∀ (host : Host) (tree tree' : Nat) (scope : Scope) (useMemo : Bool) (world world' : World),
    host.Unaware tree useMemo world → host.Unaware tree' useMemo world' → World.Akin world world' →
      EndsAlike Eq (Eval.evaluate host tree left scope useMemo world)
        (Eval.evaluate host tree' right scope useMemo world')

theorem Expr.agrees_of_shown {left right : Expr} (same : left.shown = right.shown) :
    left.Agrees right := by
  intro host tree tree' scope useMemo world world' unaware unaware' akin
  have first := Eval.sameResult_of_fresh unaware.alone left scope useMemo unaware.fresh
  have second := Eval.sameResult_of_fresh unaware'.alone right scope useMemo unaware'.fresh
  have plain := Eval.evaluate_mirrors unaware.indifferent same tree tree' scope world world' akin
  exact (first.endsAlike.trans plain).trans second.endsAlike.symm

end ExprScript
