import ExprScript.Eval.Library
import ExprScript.Proofs.Discipline.Evaluation

/-! # Calls obey a discipline

A call of an arrow function takes a new frame, which is shown, and evaluates its code in
an admitted scope. A function of the host is taken to obey the discipline if the calls that it
makes do. So calls obey however deep they are nested, and those of the library do.
-/

namespace ExprScript

def Caller.Submits (discipline : Discipline) (call : Caller) : Prop :=
  ∀ ref this args, discipline.Shows this → (∀ argument ∈ args, discipline.Shows argument) →
    ExprScript.Obeys discipline (call ref this args) discipline.Shows

/-- Every function of the host obeys the discipline if it gets shown values, and a way to call back
that obeys it. -/
def Host.Submits (discipline : Discipline) (host : Host) : Prop :=
  ∀ key function, host key = some function → ∀ call : Caller, call.Submits discipline →
    ∀ this args, discipline.Shows this → (∀ argument ∈ args, discipline.Shows argument) →
      ExprScript.Obeys discipline (function call this args) discipline.Shows

/-- A discipline that calls can obey: code may do everything, in the trees and scopes of all
functions, parameters may be defined in shown frames, and the host may take notes. -/
structure Discipline.Serves (discipline : Discipline) : Prop where
  full : discipline.permission.IsFull
  owns : ∀ tree, discipline.Owns tree
  recalls : discipline.Recalls false
  functions : ∀ {world}, discipline.Holds world → ∀ ref closure,
    (world.heap.function ref).body = .arrow closure → discipline.Admits closure.scope
  setVariable : ∀ {world frame value} name, discipline.Holds world →
    discipline.Shows (.object frame) → discipline.Shows value →
      discipline.Leads world { world with heap := world.heap.setVariable frame name value }
  note : ∀ {world : World} log, discipline.Holds world → discipline.Leads world { world with log }

namespace Eval

open Discipline

variable {discipline : Discipline} {context : Context}

/-- Variables are defined in a frame that is shown. -/
theorem defineAll_obeys (serves : discipline.Serves) {scope : Scope}
    (visible : discipline.Shows (.object scope.inner)) {bindings : Record}
    (shown : discipline.ShowsRecord bindings) :
    Obeys discipline (modifyHeap fun heap =>
      bindings.entries.foldl (fun heap (name, bound) => heap.define scope name bound) heap)
      fun _ => True := by
  have single : ∀ entry : String × Value, discipline.Shows entry.2 →
      Obeys discipline (modifyHeap fun heap => heap.define scope entry.1 entry.2)
        fun _ => True :=
    fun entry shownEntry _ holds => ⟨serves.setVariable entry.1 holds visible shownEntry, trivial⟩
  exact Obeys.modifyAll single shown

theorem bindParams_obeys (serves : discipline.Serves) (ready : context.Abides discipline)
    (visible : discipline.Shows (.object context.scope.inner)) (path : Path)
    (params : List Pattern) (index : Nat) (args : List Value)
    (shown : ∀ argument ∈ args, discipline.Shows argument) :
    Obeys discipline (bindParams context path index args params) fun _ => True := by
  induction params generalizing index args with
  | nil => exact Obeys.pure trivial
  | cons param params induction =>
      rw [bindParams_cons]
      apply Obeys.bind (bindParam_obeys ready path index shown param (param.allowed serves.full))
      intro bindings shownBindings
      apply Obeys.bind (defineAll_obeys serves visible shownBindings)
      intro _ _
      exact induction (index + 1) args.tail fun argument member =>
        shown argument (List.mem_of_mem_tail member)

theorem callClosure_obeys (serves : discipline.Serves) {call : Caller}
    (calls : call.Submits discipline) (closure : Closure)
    (admitted : discipline.Admits closure.scope) (args : List Value)
    (shown : ∀ argument ∈ args, discipline.Shows argument) :
    Obeys discipline (callClosure call closure args) discipline.Shows := by
  apply Obeys.bind (.newChild admitted showsRecord_empty)
  intro scope new
  have ready : Context.Abides discipline
      { call, scope, useMemo := false, tree := closure.tree } :=
    ⟨new.1, serves.owns closure.tree, serves.recalls, fun _ => calls⟩
  apply Obeys.bind (bindParams_obeys serves ready new.2 closure.path closure.params 0 args shown)
  intro _ _
  exact (eval_obeys _ ready .value (.body :: closure.path) closure.body
    (closure.body.allowed serves.full)).valueOf

theorem callFunction_submits (serves : discipline.Serves) {host : Host}
    (submits : host.Submits discipline) (depth : Nat) :
    Caller.Submits discipline (callFunction host depth) := by
  induction depth with
  | zero => exact fun _ _ _ _ _ => Obeys.throw _
  | succ depth induction =>
      intro ref this args shown shownArgs
      apply Obeys.inspect
      intro world holds
      split
      · next closure isArrow =>
          exact callClosure_obeys serves induction closure
            (serves.functions holds ref closure isArrow) args shownArgs
      · next key _ =>
          split
          · next function found =>
              exact submits key function found _ induction this args shown shownArgs
          · exact Obeys.raise _ _

end Eval

/-! ## The library -/

namespace Library

open Discipline

variable {discipline : Discipline} {call : Caller}

theorem shows_arg {args : List Value} (shown : ∀ argument ∈ args, discipline.Shows argument)
    (index : Nat) : discipline.Shows (arg args index) := by
  unfold arg
  cases found : args[index]? with
  | none => exact shows_primitive rfl
  | some value => exact shown value (List.mem_of_getElem? found)

private theorem callAny_obeys (calls : call.Submits discipline) (function : Value) {this : Value}
    {args : List Value} (shown : discipline.Shows this)
    (shownArgs : ∀ argument ∈ args, discipline.Shows argument) :
    Obeys discipline (Eval.callAny call function this args) discipline.Shows := by
  unfold Eval.callAny
  split
  · exact calls _ _ _ shown shownArgs
  · exact Obeys.raise _ _

private theorem mapItems_obeys (calls : call.Submits discipline) (function : Value)
    (index : Nat) (items : List Value) (shown : ∀ item ∈ items, discipline.Shows item) :
    Obeys discipline (mapItems call function index items)
      fun values => ∀ value ∈ values, discipline.Shows value := by
  induction items generalizing index with
  | nil => exact Obeys.pure (List.forall_mem_nil _)
  | cons item items induction =>
      rcases List.forall_mem_cons.mp shown with ⟨here, later⟩
      have shownArgs : ∀ argument ∈ [item, .number (Float.ofNat index)],
          discipline.Shows argument :=
        List.forall_mem_cons.mpr ⟨here, List.forall_mem_singleton.mpr (shows_primitive rfl)⟩
      apply Obeys.bind (callAny_obeys calls function (shows_primitive rfl) shownArgs)
      intro value shownValue
      exact (induction (index + 1) later).andThen fun _ others =>
        List.forall_mem_cons.mpr ⟨shownValue, others⟩

private theorem failWith_obeys (kind : ErrorKind) (fallback : String) (this : Value)
    (args : List Value) :
    Obeys discipline (failWith kind fallback call this args) discipline.Shows := by
  have text : Obeys discipline (textArgument fallback args) fun _ => True := by
    cases args with
    | nil => exact Obeys.pure trivial
    | cons value values => exact Obeys.inspected fun _ _ => trivial
  exact text.bind fun _ _ => .raise _ _

theorem host_submits (serves : discipline.Serves) : Host.Submits discipline Library.host := by
  intro key function found call calls this args shown shownArgs
  have shownArg := shows_arg shownArgs
  have mayWrite := serves.full.1
  have dropped : ∀ count, ∀ argument ∈ args.drop count, discipline.Shows argument :=
    fun _ argument member => shownArgs argument (List.mem_of_mem_drop member)
  unfold Library.host at found
  split at found <;> cases found
  · exact Obeys.heap fun _ _ => .pure (shows_primitive rfl)
  · exact Obeys.pure (shownArg 0)
  · exact Obeys.newArray shownArgs
  · exact Obeys.pure shown
  · exact fun _ holds => ⟨serves.note _ holds, shownArg 0⟩
  · exact failWith_obeys .typeError _ _ _
  · exact failWith_obeys .rangeError _ _ _
  · apply Obeys.bind (.writeProperty mayWrite {} shown "x" (shownArg 0))
    intro _ _
    exact (Obeys.writeProperty mayWrite {} shown "y" (shownArg 1)).andThen
      fun _ _ => shows_primitive rfl
  · exact Obeys.pure (shownArg 0)
  · exact Obeys.pure (shows_primitive rfl)
  · apply Obeys.bind (.readProperty {} (shownArg 0) "raw")
    intro raw shownRaw
    apply Obeys.bind (.newArray (dropped 1))
    intro others shownOthers
    exact Obeys.newArray (List.forall_mem_cons.mpr ⟨shownArg 0,
      List.forall_mem_cons.mpr ⟨shownRaw, List.forall_mem_singleton.mpr shownOthers⟩⟩)
  · exact callAny_obeys calls _ (shownArg 1) (dropped 2)
  · apply Obeys.bind (.spreadValues {} (shownArg 0))
    intro items shownItems
    exact (mapItems_obeys calls (arg args 1) 0 items shownItems).bind fun _ results =>
      .newArray results
  · apply Obeys.inspect
    intro world _
    apply Obeys.newArray
    intro value member
    rcases List.mem_map.mp member with ⟨entry, -, rfl⟩
    exact shows_primitive rfl
  · exact Obeys.inspected fun _ _ => shows_primitive rfl

end Library

end ExprScript
