import ExprScript.Proofs.FunctionView

/-! # Worlds up to the places of functions

An arrow function knows the node that it comes from, and results are remembered under the
nodes that they belong to. Two worlds that differ in nothing else cannot be told apart by a
program. Two computations are compared on such worlds, and the rules follow the way
computations are put together.
-/

namespace ExprScript

variable {α β γ δ : Type}

/-! ## Heaps -/

/-- The function without the node that it comes from. -/
def Closure.placeless (closure : Closure) : Closure := { closure with tree := 0, path := [] }

def FunctionBody.placeless : FunctionBody → FunctionBody
  | .native key => .native key
  | .arrow closure => .arrow closure.placeless

def FunctionValue.placeless (function : FunctionValue) : FunctionValue :=
  { function with body := function.body.placeless }

namespace FunctionValue

theorem sourceText_placeless (function : FunctionValue) :
    function.placeless.sourceText = function.sourceText := by
  rcases function with ⟨name, body, constructible⟩
  cases body <;> rfl

theorem paramCount_placeless (function : FunctionValue) :
    function.placeless.paramCount = function.paramCount := by
  rcases function with ⟨name, body, constructible⟩
  cases body <;> rfl

end FunctionValue

def placelessView : FunctionView where
  see := FunctionValue.placeless
  name _ := rfl
  constructible _ := rfl
  sourceText := FunctionValue.sourceText_placeless
  paramCount := FunctionValue.paramCount_placeless
  native _ _ _ := rfl

namespace Heap

/-- The heap without the nodes that its functions come from. -/
def placeless (heap : Heap) : Heap :=
  { heap with functions := heap.functions.map FunctionValue.placeless }

def Congruent (left right : Heap) : Prop := left.placeless = right.placeless

section

variable (heap : Heap)

theorem function_placeless (ref : FunctionRef) :
    heap.placeless.function ref = (heap.function ref).placeless :=
  heap.function_seen placelessView ref

theorem newFunction_placeless (function : FunctionValue) :
    (heap.newFunction function).2.placeless =
      (heap.placeless.newFunction function.placeless).2 :=
  heap.newFunction_seen placelessView function

/-! What a program reads off a heap does not depend on the nodes. -/

theorem toText_placeless (value : Value) : heap.placeless.toText value = heap.toText value :=
  heap.toText_seen placelessView value

theorem toNumber_placeless (value : Value) :
    heap.placeless.toNumber value = heap.toNumber value :=
  heap.toNumber_seen placelessView value

theorem toPropertyKey_placeless (value : Value) :
    heap.placeless.toPropertyKey value = heap.toPropertyKey value :=
  heap.toPropertyKey_seen placelessView value

theorem getProperty_placeless (object : Value) (key : String) :
    heap.placeless.getProperty object key = heap.getProperty object key :=
  heap.getProperty_seen placelessView object key

theorem setProperty_placeless (object : Value) (key : String) (value : Value) :
    heap.placeless.setProperty object key value =
      (heap.setProperty object key value).map placeless :=
  heap.setProperty_seen placelessView object key value

theorem iterate_placeless (value : Value) :
    heap.placeless.iterate value = heap.iterate value :=
  heap.iterate_seen placelessView value

theorem ownEntries_placeless (value : Value) :
    heap.placeless.ownEntries value = heap.ownEntries value := rfl

theorem binary_placeless (op : BinaryOp) (left right : Value) :
    heap.placeless.binary op left right = heap.binary op left right :=
  heap.binary_seen placelessView op left right

theorem unary_placeless (op : UnaryOp) (value : Value) :
    heap.placeless.unary op value = heap.unary op value :=
  heap.unary_seen placelessView op value

end

namespace Congruent

variable {left right : Heap}

theorem same (congruent : Congruent left right) (read : Heap → α)
    (placeless : ∀ heap : Heap, read heap.placeless = read heap) : read left = read right := by
  rw [← placeless left, congruent, placeless right]

theorem function (congruent : Congruent left right) (ref : FunctionRef) :
    (left.function ref).placeless = (right.function ref).placeless := by
  rw [← function_placeless, ← function_placeless, congruent]

end Congruent

end Heap

/-! ## Worlds -/

def LogEntry.placeless (entry : LogEntry) : LogEntry := { entry with heap := entry.heap.placeless }

/-- The worlds differ at most in what is remembered and in the nodes that functions come
from. -/
structure World.Congruent (left right : World) : Prop where
  heap : left.heap.Congruent right.heap
  log : left.log.map LogEntry.placeless = right.log.map LogEntry.placeless
  nextTree : left.nextTree = right.nextTree

namespace World.Congruent

variable {first second third : World}

theorem refl (world : World) : Congruent world world := ⟨rfl, rfl, rfl⟩

theorem symm (congruent : Congruent first second) : Congruent second first :=
  ⟨congruent.heap.symm, congruent.log.symm, congruent.nextTree.symm⟩

theorem trans (congruent : Congruent first second) (congruent' : Congruent second third) :
    Congruent first third :=
  ⟨congruent.heap.trans congruent'.heap, congruent.log.trans congruent'.log,
    congruent.nextTree.trans congruent'.nextTree⟩

end World.Congruent

open World

/-! ## Two computations -/

/-- Two runs have both succeeded, or they have both failed, in congruent worlds. -/
inductive Corresponds (failures : Failure → Failure → Prop) (post : α → β → Prop) :
    EStateM.Result Failure World α → EStateM.Result Failure World β → Prop
  | ok {value : α} {value' : β} {left right : World} (holds : post value value')
      (congruent : Congruent left right) :
      Corresponds failures post (.ok value left) (.ok value' right)
  | error {failure failure' : Failure} {left right : World} (holds : failures failure failure')
      (congruent : Congruent left right) :
      Corresponds failures post (.error failure left) (.error failure' right)

def Relates (failures : Failure → Failure → Prop) (post : α → β → Prop) (left : Eval α)
    (right : Eval β) : Prop :=
  ∀ before before' : World, Congruent before before' →
    Corresponds failures post (left before) (right before')

abbrev Relocates (left right : Eval α) : Prop := Relates Eq Eq left right

namespace Relates

variable {failures : Failure → Failure → Prop} {post : α → β → Prop} {post' : γ → δ → Prop}

theorem pure {value : α} {value' : β} (holds : post value value') :
    Relates failures post (Pure.pure value) (Pure.pure value') :=
  fun _ _ congruent => .ok holds congruent

theorem throw {failure failure' : Failure} (holds : failures failure failure') :
    Relates failures post (MonadExcept.throw failure : Eval α)
      (MonadExcept.throw failure' : Eval β) :=
  fun _ _ congruent => .error holds congruent

theorem bind {left : Eval α} {right : Eval β} {next : α → Eval γ} {next' : β → Eval δ}
    (start : Relates failures post left right)
    (rest : ∀ value value', post value value' →
      Relates failures post' (next value) (next' value')) :
    Relates failures post' (left >>= next) (right >>= next') := by
  intro before before' congruent
  have first := start before before' congruent
  simp only [Bind.bind, EStateM.bind]
  generalize left before = result at first
  generalize right before' = result' at first
  cases first with
  | ok holds congruent' => exact rest _ _ holds _ _ congruent'
  | error holds congruent' => exact .error holds congruent'

theorem after {left right : Eval α} {next : α → Eval γ} {next' : α → Eval δ}
    (start : Relates failures Eq left right)
    (rest : ∀ value, Relates failures post' (next value) (next' value)) :
    Relates failures post' (left >>= next) (right >>= next') := by
  apply bind start
  intro value _ same
  cases same
  exact rest value

end Relates

namespace Relocates

theorem pure (value : α) : Relocates (Pure.pure value) (Pure.pure value) := Relates.pure rfl

theorem throw (failure : Failure) :
    Relocates (MonadExcept.throw failure : Eval α) (MonadExcept.throw failure) :=
  Relates.throw rfl

theorem raise (cause : Cause) (position : Position) :
    Relocates (Eval.raise cause position : Eval α) (Eval.raise cause position) :=
  throw _

theorem bind {left right : Eval α} {next next' : α → Eval β} (start : Relocates left right)
    (rest : ∀ value, Relocates (next value) (next' value)) :
    Relocates (left >>= next) (right >>= next') :=
  Relates.after start rest

theorem ofExcept (result : Except Error α) :
    Relocates (Eval.ofExcept result) (Eval.ofExcept result) := by
  cases result with
  | error error => exact throw _
  | ok value => exact pure value

theorem heap : Relates Eq Heap.Congruent Eval.heap Eval.heap :=
  fun _ _ congruent => .ok congruent.heap congruent

theorem inspect {read : Heap → α} (placeless : ∀ heap : Heap, read heap.placeless = read heap) :
    Relocates (Eval.inspect read) (Eval.inspect read) :=
  Relates.bind heap fun _ _ congruent => Relates.pure (congruent.same read placeless)

theorem setHeap {left right : Heap} (congruent : left.Congruent right) :
    Relocates (Eval.setHeap left) (Eval.setHeap right) :=
  fun _ _ congruent' => .ok rfl ⟨congruent, congruent'.log, congruent'.nextTree⟩

theorem modifyHeap {change : Heap → Heap}
    (placeless : ∀ heap : Heap, (change heap).placeless = change heap.placeless) :
    Relocates (Eval.modifyHeap change) (Eval.modifyHeap change) := by
  intro before before' congruent
  apply Corresponds.ok rfl
  constructor
  · exact (placeless _).trans ((congrArg change congruent.heap).trans (placeless _).symm)
  · exact congruent.log
  · exact congruent.nextTree

/-- What is allocated may come from different nodes. -/
theorem allocate {new new' : Heap → α × Heap}
    (result : ∀ left right : Heap, left.Congruent right → (new left).1 = (new' right).1)
    (congruent : ∀ left right : Heap, left.Congruent right →
      (new left).2.Congruent (new' right).2) :
    Relocates (Eval.allocate new) (Eval.allocate new') := by
  intro before before' before_congruent
  apply Corresponds.ok (result _ _ before_congruent.heap)
  exact ⟨congruent _ _ before_congruent.heap, before_congruent.log, before_congruent.nextTree⟩

theorem allocateSame {new : Heap → α × Heap}
    (result : ∀ heap : Heap, (new heap.placeless).1 = (new heap).1)
    (placeless : ∀ heap : Heap, (new heap).2.placeless = (new heap.placeless).2) :
    Relocates (Eval.allocate new) (Eval.allocate new) := by
  apply allocate
  · exact fun _ _ congruent => congruent.same (fun heap => (new heap).1) result
  · intro left right congruent
    exact (placeless left).trans
      ((congrArg (fun heap => (new heap).2) congruent).trans (placeless right).symm)

theorem note (value : Value) : Relocates (Eval.note value) (Eval.note value) := by
  intro before before' congruent
  apply Corresponds.ok rfl
  refine ⟨congruent.heap, ?_, congruent.nextTree⟩
  simp only [List.map_cons, LogEntry.placeless, congruent.log]
  rw [show before.heap.placeless = before'.heap.placeless from congruent.heap]

theorem anchored (position : Position) {left right : Eval α} (relocates : Relocates left right) :
    Relocates (Eval.anchored position left) (Eval.anchored position right) := by
  intro before before' congruent
  have outcome := relocates before before' congruent
  simp only [Eval.anchored, EStateM.run]
  generalize left before = result at outcome
  generalize right before' = result' at outcome
  cases outcome with
  | ok holds congruent' => exact .ok holds congruent'
  | @error failure failure' _ _ same congruent' =>
      subst same
      cases failure <;> exact .error rfl congruent'

theorem newArray (elements : List Value) :
    Relocates (Eval.newArray elements) (Eval.newArray elements) :=
  bind (allocateSame (fun _ => rfl) fun _ => rfl) fun _ => pure _

theorem newObject (record : Record) :
    Relocates (Eval.newObject record) (Eval.newObject record) :=
  bind (allocateSame (fun _ => rfl) fun _ => rfl) fun _ => pure _

theorem newChild (scope : Scope) (vars : Record) :
    Relocates (Eval.allocate fun heap => heap.newChild scope vars)
      (Eval.allocate fun heap => heap.newChild scope vars) :=
  allocateSame (fun _ => rfl) fun _ => rfl

theorem readProperty (position : Position) (object : Value) (key : String) :
    Relocates (Eval.readProperty position object key) (Eval.readProperty position object key) := by
  apply Relates.bind heap
  intro left right congruent
  rw [congruent.same (·.getProperty object key) fun _ => Heap.getProperty_placeless _ object key]
  exact anchored position (ofExcept _)

theorem writeProperty (position : Position) (object : Value) (key : String) (value : Value) :
    Relocates (Eval.writeProperty position object key value)
      (Eval.writeProperty position object key value) := by
  apply Relates.bind heap
  intro left right congruent
  have same : (left.setProperty object key value).map Heap.placeless =
      (right.setProperty object key value).map Heap.placeless := by
    rw [← Heap.setProperty_placeless, ← Heap.setProperty_placeless, congruent]
  cases written : left.setProperty object key value with
  | error error =>
      cases written' : right.setProperty object key value with
      | error error' =>
          rw [written, written'] at same
          cases same
          exact bind (anchored position (throw _)) fun heap => setHeap rfl
      | ok heap' =>
          rw [written, written'] at same
          cases same
  | ok heap =>
      cases written' : right.setProperty object key value with
      | error error' =>
          rw [written, written'] at same
          cases same
      | ok heap' =>
          rw [written, written'] at same
          exact setHeap (Except.ok.inj same)

theorem applyBinary (position : Position) (op : BinaryOp) (left right : Value) :
    Relocates (Eval.applyBinary position op left right)
      (Eval.applyBinary position op left right) := by
  apply Relates.bind heap
  intro first second congruent
  rw [congruent.same (·.binary op left right) fun _ => Heap.binary_placeless _ op left right]
  exact anchored position (ofExcept _)

theorem spreadValues (position : Position) (value : Value) :
    Relocates (Eval.spreadValues position value) (Eval.spreadValues position value) := by
  apply Relates.bind heap
  intro left right congruent
  rw [congruent.same (·.iterate value) fun _ => Heap.iterate_placeless _ value]
  exact anchored position (ofExcept _)

theorem nullishTarget (position : Position) (value : Value) :
    Relocates (Eval.nullishTarget position value : Eval α) (Eval.nullishTarget position value) :=
  bind (inspect fun heap => heap.toText_placeless value) fun _ => raise _ _

theorem templateStrings (quasis : List Quasi) :
    Relocates (Eval.templateStrings quasis) (Eval.templateStrings quasis) :=
  bind (newArray _) fun _ =>
    bind (allocateSame (fun _ => rfl) fun _ => rfl) fun _ => pure _

/-- Variables are written one after the other. -/
theorem setVariables (bindings : Record) (write : Heap → String → Value → Heap)
    (placeless : ∀ (heap : Heap) name value,
      (write heap name value).placeless = write heap.placeless name value) :
    Relocates
      (Eval.modifyHeap fun heap =>
        bindings.entries.foldl (fun heap (name, bound) => write heap name bound) heap)
      (Eval.modifyHeap fun heap =>
        bindings.entries.foldl (fun heap (name, bound) => write heap name bound) heap) := by
  apply modifyHeap
  intro heap
  induction bindings.entries generalizing heap with
  | nil => rfl
  | cons entry entries induction =>
      rcases entry with ⟨name, bound⟩
      rw [List.foldl_cons, List.foldl_cons, induction, placeless]

end Relocates

end ExprScript
