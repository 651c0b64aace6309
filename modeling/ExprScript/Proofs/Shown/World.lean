import ExprScript.Proofs.FunctionView
import ExprScript.Proofs.Shown.Normal

/-! # Worlds up to what functions show

A function is created anew from a tree that was parsed again, and then it is another function:
it comes from another node, and its body may have further parentheses. Its text is the same.
Two computations are compared on worlds that differ in nothing else, and their failures up to
the place that is blamed and the text of what was called.
-/

namespace ExprScript

variable {α β γ δ : Type}

/-! ## Functions -/

def Closure.shown (closure : Closure) : Closure where
  tree := 0
  path := []
  params := shownPatterns closure.params
  body := closure.body.shown
  scope := closure.scope

def FunctionBody.shown : FunctionBody → FunctionBody
  | .native key => .native key
  | .arrow closure => .arrow closure.shown

def FunctionValue.shown (function : FunctionValue) : FunctionValue :=
  { function with body := function.body.shown }

namespace FunctionValue

theorem map_print_shown (params : List Pattern) :
    (shownPatterns params).map Pattern.print = params.map Pattern.print := by
  induction params with
  | nil => rfl
  | cons param params induction =>
      rw [shownPatterns, List.map_cons, List.map_cons, param.print_shown, induction]

theorem isOptionalParam_shown (param : Pattern) :
    isOptionalParam param.shown = isOptionalParam param := by
  cases param <;> rfl

theorem length_takeWhile_shown (params : List Pattern) :
    ((shownPatterns params).takeWhile fun param => !isOptionalParam param).length =
      (params.takeWhile fun param => !isOptionalParam param).length := by
  induction params with
  | nil => rfl
  | cons param params induction =>
      simp only [shownPatterns, List.takeWhile_cons, isOptionalParam_shown]
      split
      · rw [List.length_cons, List.length_cons, induction]
      · rfl

theorem sourceText_shown (function : FunctionValue) :
    function.shown.sourceText = function.sourceText := by
  rcases function with ⟨name, body, constructible⟩
  cases body with
  | native key => rfl
  | arrow closure =>
      simp only [sourceText, shown, FunctionBody.shown, Closure.shown, map_print_shown,
        Expr.print_shown]

theorem paramCount_shown (function : FunctionValue) :
    function.shown.paramCount = function.paramCount := by
  rcases function with ⟨name, body, constructible⟩
  cases body with
  | native key => rfl
  | arrow closure => exact length_takeWhile_shown closure.params

end FunctionValue

def shownView : FunctionView where
  see := FunctionValue.shown
  name _ := rfl
  constructible _ := rfl
  sourceText := FunctionValue.sourceText_shown
  paramCount := FunctionValue.paramCount_shown
  native _ _ _ := rfl

/-! ## Worlds and failures -/

namespace Heap

def Akin (left right : Heap) : Prop := left.seen shownView = right.seen shownView

namespace Akin

variable {left right : Heap}

theorem same (akin : Akin left right) (read : Heap → α)
    (seen : ∀ heap : Heap, read (heap.seen shownView) = read heap) : read left = read right := by
  rw [← seen left, akin, seen right]

theorem function (akin : Akin left right) (ref : FunctionRef) :
    (left.function ref).shown = (right.function ref).shown := by
  have same : (left.seen shownView).function ref = (right.seen shownView).function ref := by
    rw [akin]
  rwa [function_seen, function_seen] at same

end Akin

end Heap

def LogEntry.shown (entry : LogEntry) : LogEntry :=
  { entry with heap := entry.heap.seen shownView }

/-- The worlds differ at most in what is remembered and in the functions, which show the
same. -/
structure World.Akin (left right : World) : Prop where
  heap : left.heap.Akin right.heap
  log : left.log.map LogEntry.shown = right.log.map LogEntry.shown
  nextTree : left.nextTree = right.nextTree

namespace World.Akin

variable {first second third : World}

theorem refl (world : World) : Akin world world := ⟨rfl, rfl, rfl⟩

theorem symm (akin : Akin first second) : Akin second first :=
  ⟨akin.heap.symm, akin.log.symm, akin.nextTree.symm⟩

theorem trans (akin : Akin first second) (akin' : Akin second third) : Akin first third :=
  ⟨akin.heap.trans akin'.heap, akin.log.trans akin'.log, akin.nextTree.trans akin'.nextTree⟩

end World.Akin

open World

def Cause.nameless : Cause → Cause
  | .notDefined _ => .notDefined ""
  | .notFunction _ => .notFunction ""
  | .notConstructor _ => .notConstructor ""
  | cause => cause

/-- The failure without the place that is blamed. -/
def Failure.placeless : Failure → Failure
  | .raised error => .raised { cause := error.cause.nameless }
  | .exhausted => .exhausted

def Failure.Akin (left right : Failure) : Prop := left.placeless = right.placeless

theorem Failure.Akin.anchored {error error' : Error}
    (akin : Failure.Akin (.raised error) (.raised error')) (position position' : Position) :
    Failure.Akin (.raised (error.anchoredAt position)) (.raised (error'.anchoredAt position')) := by
  have kept : ∀ (error : Error) position,
      Failure.placeless (.raised (error.anchoredAt position)) = .placeless (.raised error) := by
    intro error position
    rw [Error.anchoredAt]
    split <;> rfl
  rw [Failure.Akin, kept, kept]
  exact akin

/-! ## Two computations -/

inductive EndsAlike (post : α → β → Prop) :
    EStateM.Result Failure World α → EStateM.Result Failure World β → Prop
  | ok {value : α} {value' : β} {left right : World} (holds : post value value')
      (akin : Akin left right) : EndsAlike post (.ok value left) (.ok value' right)
  | error {failure failure' : Failure} {left right : World} (holds : failure.Akin failure')
      (akin : Akin left right) : EndsAlike post (.error failure left) (.error failure' right)

namespace EndsAlike

variable {first second third : EStateM.Result Failure World α}

theorem symm (alike : EndsAlike Eq first second) : EndsAlike Eq second first := by
  cases alike with
  | ok same akin => exact .ok same.symm akin.symm
  | error same akin => exact .error same.symm akin.symm

theorem trans (alike : EndsAlike Eq first second) (alike' : EndsAlike Eq second third) :
    EndsAlike Eq first third := by
  cases alike with
  | ok same akin =>
      cases alike' with
      | ok same' akin' => exact .ok (same.trans same') (akin.trans akin')
  | error same akin =>
      cases alike' with
      | error same' akin' => exact .error (same.trans same') (akin.trans akin')

end EndsAlike

/-- From worlds that are akin the two computations have results that match. -/
def Follows (post : α → β → Prop) (left : Eval α) (right : Eval β) : Prop :=
  ∀ before before' : World, Akin before before' → EndsAlike post (left before) (right before')

abbrev Mirrors (left right : Eval α) : Prop := Follows Eq left right

namespace Follows

variable {post : α → β → Prop} {post' : γ → δ → Prop}

theorem pure {value : α} {value' : β} (holds : post value value') :
    Follows post (Pure.pure value) (Pure.pure value') :=
  fun _ _ akin => .ok holds akin

theorem throw {failure failure' : Failure} (holds : failure.Akin failure') :
    Follows post (MonadExcept.throw failure : Eval α) (MonadExcept.throw failure' : Eval β) :=
  fun _ _ akin => .error holds akin

theorem raise {cause cause' : Cause} (same : cause.nameless = cause'.nameless)
    (position position' : Position) :
    Follows post (Eval.raise cause position : Eval α) (Eval.raise cause' position' : Eval β) :=
  throw (by rw [Failure.Akin, Failure.placeless, Failure.placeless, same])

theorem bind {left : Eval α} {right : Eval β} {next : α → Eval γ} {next' : β → Eval δ}
    (start : Follows post left right)
    (rest : ∀ value value', post value value' → Follows post' (next value) (next' value')) :
    Follows post' (left >>= next) (right >>= next') := by
  intro before before' akin
  have first := start before before' akin
  simp only [Bind.bind, EStateM.bind]
  generalize left before = result at first
  generalize right before' = result' at first
  cases first with
  | ok holds akin' => exact rest _ _ holds _ _ akin'
  | error holds akin' => exact .error holds akin'

theorem after {left right : Eval α} {next : α → Eval γ} {next' : α → Eval δ}
    (start : Mirrors left right) (rest : ∀ value, Follows post' (next value) (next' value)) :
    Follows post' (left >>= next) (right >>= next') := by
  apply bind start
  intro value _ same
  cases same
  exact rest value

end Follows

namespace Mirrors

theorem pure (value : α) : Mirrors (Pure.pure value) (Pure.pure value) := Follows.pure rfl

theorem raise (cause : Cause) (position position' : Position) :
    Mirrors (Eval.raise cause position : Eval α) (Eval.raise cause position') :=
  Follows.raise rfl position position'

theorem bind {left right : Eval α} {next next' : α → Eval β} (start : Mirrors left right)
    (rest : ∀ value, Mirrors (next value) (next' value)) :
    Mirrors (left >>= next) (right >>= next') :=
  Follows.after start rest

theorem symm {left right : Eval α} (mirrors : Mirrors left right) : Mirrors right left :=
  fun _ _ akin => (mirrors _ _ akin.symm).symm

theorem trans {first second third : Eval α} (mirrors : Mirrors first second)
    (mirrors' : Mirrors second third) : Mirrors first third :=
  fun _ before' akin => (mirrors _ _ akin).trans (mirrors' _ _ (.refl before'))

theorem ofExcept (result : Except Error α) :
    Mirrors (Eval.ofExcept result) (Eval.ofExcept result) := by
  cases result with
  | error error => exact Follows.throw rfl
  | ok value => exact pure value

theorem heap : Follows Heap.Akin Eval.heap Eval.heap :=
  fun _ _ akin => .ok akin.heap akin

theorem inspect {read : Heap → α} (seen : ∀ heap : Heap, read (heap.seen shownView) = read heap) :
    Mirrors (Eval.inspect read) (Eval.inspect read) :=
  Follows.bind heap fun _ _ akin => Follows.pure (akin.same read seen)

theorem setHeap {left right : Heap} (akin : left.Akin right) :
    Mirrors (Eval.setHeap left) (Eval.setHeap right) :=
  fun _ _ akin' => .ok rfl ⟨akin, akin'.log, akin'.nextTree⟩

theorem modifyHeap {change : Heap → Heap}
    (seen : ∀ heap : Heap, (change heap).seen shownView = change (heap.seen shownView)) :
    Mirrors (Eval.modifyHeap change) (Eval.modifyHeap change) := by
  intro before before' akin
  apply EndsAlike.ok rfl
  constructor
  · exact (seen _).trans ((congrArg change akin.heap).trans (seen _).symm)
  · exact akin.log
  · exact akin.nextTree

theorem allocate {new new' : Heap → α × Heap}
    (result : ∀ left right : Heap, left.Akin right → (new left).1 = (new' right).1)
    (akin : ∀ left right : Heap, left.Akin right → (new left).2.Akin (new' right).2) :
    Mirrors (Eval.allocate new) (Eval.allocate new') := by
  intro before before' before_akin
  apply EndsAlike.ok (result _ _ before_akin.heap)
  exact ⟨akin _ _ before_akin.heap, before_akin.log, before_akin.nextTree⟩

theorem allocateSame {new : Heap → α × Heap}
    (result : ∀ heap : Heap, (new (heap.seen shownView)).1 = (new heap).1)
    (seen : ∀ heap : Heap, (new heap).2.seen shownView = (new (heap.seen shownView)).2) :
    Mirrors (Eval.allocate new) (Eval.allocate new) := by
  apply allocate
  · exact fun _ _ akin => akin.same (fun heap => (new heap).1) result
  · intro left right akin
    exact (seen left).trans ((congrArg (fun heap => (new heap).2) akin).trans (seen right).symm)

theorem note (value : Value) : Mirrors (Eval.note value) (Eval.note value) := by
  intro before before' akin
  apply EndsAlike.ok rfl
  refine ⟨akin.heap, ?_, akin.nextTree⟩
  simp only [List.map_cons, LogEntry.shown, akin.log]
  rw [show before.heap.seen shownView = before'.heap.seen shownView from akin.heap]

theorem anchored (position position' : Position) {left right : Eval α}
    (mirrors : Mirrors left right) :
    Mirrors (Eval.anchored position left) (Eval.anchored position' right) := by
  intro before before' akin
  have outcome := mirrors before before' akin
  simp only [Eval.anchored, EStateM.run]
  generalize left before = result at outcome
  generalize right before' = result' at outcome
  cases outcome with
  | ok holds akin' => exact .ok holds akin'
  | @error failure failure' _ _ same akin' =>
      cases failure with
      | raised error =>
          cases failure' with
          | raised error' => exact .error (same.anchored position position') akin'
          | exhausted => cases same
      | exhausted =>
          cases failure' with
          | raised error' => cases same
          | exhausted => exact .error rfl akin'

theorem newArray (elements : List Value) :
    Mirrors (Eval.newArray elements) (Eval.newArray elements) :=
  bind (allocateSame (fun _ => rfl) fun _ => rfl) fun _ => pure _

theorem newObject (record : Record) : Mirrors (Eval.newObject record) (Eval.newObject record) :=
  bind (allocateSame (fun _ => rfl) fun _ => rfl) fun _ => pure _

theorem newChild (scope : Scope) (vars : Record) :
    Mirrors (Eval.allocate fun heap => heap.newChild scope vars)
      (Eval.allocate fun heap => heap.newChild scope vars) :=
  allocateSame (fun _ => rfl) fun _ => rfl

theorem readProperty (position position' : Position) (object : Value) (key : String) :
    Mirrors (Eval.readProperty position object key)
      (Eval.readProperty position' object key) := by
  apply Follows.bind heap
  intro left right akin
  rw [akin.same (·.getProperty object key) fun heap => heap.getProperty_seen _ object key]
  exact anchored _ _ (ofExcept _)

theorem writeProperty (position position' : Position) (object : Value) (key : String)
    (value : Value) : Mirrors (Eval.writeProperty position object key value)
      (Eval.writeProperty position' object key value) := by
  apply Follows.bind heap
  intro left right akin
  have same : (left.setProperty object key value).map (Heap.seen shownView) =
      (right.setProperty object key value).map (Heap.seen shownView) := by
    rw [← Heap.setProperty_seen, ← Heap.setProperty_seen, akin]
  cases written : left.setProperty object key value with
  | error error =>
      cases written' : right.setProperty object key value with
      | error error' =>
          rw [written, written'] at same
          cases same
          exact bind (anchored _ _ (Follows.throw rfl)) fun heap => setHeap rfl
      | ok heap' =>
          rw [written, written'] at same
          cases same
  | ok heap =>
      cases written' : right.setProperty object key value with
      | error error' =>
          rw [written, written'] at same
          cases same
      | ok heap' =>
          rw [written, written'] at same
          exact setHeap (Except.ok.inj same)

theorem applyBinary (position position' : Position) (op : BinaryOp) (left right : Value) :
    Mirrors (Eval.applyBinary position op left right)
      (Eval.applyBinary position' op left right) := by
  apply Follows.bind heap
  intro first second akin
  rw [akin.same (·.binary op left right) fun heap => heap.binary_seen _ op left right]
  exact anchored _ _ (ofExcept _)

theorem spreadValues (position position' : Position) (value : Value) :
    Mirrors (Eval.spreadValues position value) (Eval.spreadValues position' value) := by
  apply Follows.bind heap
  intro left right akin
  rw [akin.same (·.iterate value) fun heap => heap.iterate_seen _ value]
  exact anchored _ _ (ofExcept _)

theorem nullishTarget (position position' : Position) (value : Value) :
    Mirrors (Eval.nullishTarget position value : Eval α) (Eval.nullishTarget position' value) :=
  bind (inspect fun heap => heap.toText_seen _ value) fun _ => raise _ _ _

/-- Variables are written one after the other. -/
theorem setVariables (bindings : Record) (write : Heap → String → Value → Heap)
    (seen : ∀ (heap : Heap) name value,
      (write heap name value).seen shownView = write (heap.seen shownView) name value) :
    Mirrors
      (Eval.modifyHeap fun heap =>
        bindings.entries.foldl (fun heap (name, bound) => write heap name bound) heap)
      (Eval.modifyHeap fun heap =>
        bindings.entries.foldl (fun heap (name, bound) => write heap name bound) heap) := by
  apply modifyHeap
  intro heap
  induction bindings.entries generalizing heap with
  | nil => rfl
  | cons entry entries induction =>
      rcases entry with ⟨name, bound⟩
      rw [List.foldl_cons, List.foldl_cons, induction, seen]

end Mirrors

end ExprScript
