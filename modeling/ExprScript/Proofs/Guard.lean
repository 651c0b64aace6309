import ExprScript.Eval.Call
import ExprScript.Proofs.Discipline.Call
import ExprScript.Proofs.Discipline.Permission
import ExprScript.Proofs.Effect.Heap
import ExprScript.Proofs.Growth

/-! # Guards

A guard keeps some objects hidden: no value refers to them, so that code gets at them
as frames of its scope only. The guard also says what code may do and which scopes it
may have, and what is kept of a world however it changes.

From every world that the guard holds of, a computation that respects the guard leads
to such a world again, whether or not it has a result. This is what a discipline asks for,
so that the rules are those of disciplines. A new frame is not hidden, so that parameters may be
defined in it, and functions have admitted scopes: calls respect the guard if the functions of
the host do, however deep they are nested.
-/

namespace ExprScript

structure Guard where
  hidden : ObjectRef → Prop
  permission : Permission
  /-- The scopes that code may have. -/
  admits : Scope → Prop
  /-- What is the same in the later world. -/
  keeps : World → World → Prop
  full_of_call : permission.call → permission.IsFull
  admits_push : ∀ {scope frame}, admits scope → ¬ hidden frame → admits (scope.push frame)
  refl : ∀ world, keeps world world
  trans : ∀ {before middle after}, keeps before middle → keeps middle after → keeps before after
  /-- New places are taken. -/
  keeps_extends : ∀ {world : World} {heap},
    (∀ ref, hidden ref → ref.index < world.heap.objects.size) → world.heap.Extends heap →
      keeps world { world with heap }
  keeps_memo : ∀ (world : World) memo, keeps world { world with memo }
  /-- The hidden objects are left alone. -/
  keeps_aside : permission.write → ∀ {world : World} {heap},
    (∀ ref, hidden ref → heap.object ref = world.heap.object ref) → keeps world { world with heap }
  keeps_assign : permission.write → ∀ {world : World} {scope}, admits scope → ∀ name value,
    keeps world { world with heap := world.heap.assign scope name value }
  keeps_log : permission.call → ∀ (world : World) log, keeps world { world with log }

namespace Guard

variable (guard : Guard)

def Shows (value : Value) : Prop := ∀ ref, guard.hidden ref → value ≠ .object ref

/-- The hidden objects are on the heap, and nothing that is stored refers to them. Functions have
admitted scopes, if they can be called. -/
structure Holds (world : World) : Prop where
  inside : ∀ ref, guard.hidden ref → ref.index < world.heap.objects.size
  stored : ∀ container part, world.heap.Stores container part → guard.Shows part
  functions : guard.permission.call → ∀ ref closure,
    (world.heap.function ref).body = .arrow closure → guard.admits closure.scope
  memo : ∀ entry ∈ world.memo, guard.Shows entry.2

def Leads (before after : World) : Prop := guard.Holds after ∧ guard.keeps before after

variable {guard}

theorem Leads.trans {before middle after : World} (first : guard.Leads before middle)
    (second : guard.Leads middle after) : guard.Leads before after :=
  ⟨second.1, guard.trans first.2 second.2⟩

theorem shows_primitive {value : Value} (primitive : value.isObjectLike = false) :
    guard.Shows value := by
  intro ref _ equal
  rw [equal] at primitive
  cases primitive

namespace Holds

variable {world : World} {value part : Value} {scope : Scope}

theorem leads (holds : guard.Holds world) : guard.Leads world world := ⟨holds, guard.refl world⟩

/-! ## Reading -/

theorem lookup? (holds : guard.Holds world) {name : String}
    (found : world.heap.lookup? scope name = some value) : guard.Shows value := by
  rcases List.exists_of_findSome?_eq_some found with ⟨frame, -, stored⟩
  exact holds.stored (.object frame) value (Record.stores_of_get? stored)

theorem get?_memo (holds : guard.Holds world) {node : NodeId}
    (found : world.memo.get? node = some value) : guard.Shows value := by
  rcases List.lookup_eq_some_iff.mp found with ⟨before, after, equal, -⟩
  exact holds.memo (node, value) (equal ▸ List.mem_append_right _ List.mem_cons_self)

/-! ## Changes of the heap -/

/-- What is stored anew is shown, and a new function has an admitted scope. -/
theorem withHeap (holds : guard.Holds world) {heap : Heap}
    (size : world.heap.objects.size ≤ heap.objects.size)
    (stored : ∀ container part, heap.Stores container part →
      world.heap.Stores container part ∨ guard.Shows part)
    (functions : ∀ ref closure, (heap.function ref).body = .arrow closure →
      (world.heap.function ref).body = .arrow closure ∨ guard.admits closure.scope) :
    guard.Holds { world with heap } where
  inside := fun ref isHidden => Nat.lt_of_lt_of_le (holds.inside ref isHidden) size
  stored := fun container part stores =>
    (stored container part stores).elim (holds.stored container part) id
  functions := fun mayCall ref closure isArrow =>
    (functions ref closure isArrow).elim (holds.functions mayCall ref closure) id
  memo := holds.memo

theorem newArray (holds : guard.Holds world) {store : ArrayStore}
    (shown : ∀ value, store.Stores value → guard.Shows value) :
    guard.Leads world { world with heap := (world.heap.newArray store).2 } :=
  ⟨holds.withHeap (Nat.le_refl _)
      (fun _ part stores => (Heap.stores_newArray stores).imp_right (shown part))
      fun _ _ isArrow => .inl isArrow,
    guard.keeps_extends holds.inside (.newArray _ _)⟩

theorem newObject (holds : guard.Holds world) {record : Record}
    (shown : ∀ value, record.Stores value → guard.Shows value) :
    guard.Leads world { world with heap := (world.heap.newObject record).2 } :=
  ⟨holds.withHeap ((Array.size_push record).symm ▸ Nat.le_succ _)
      (fun _ part stores => (Heap.stores_newObject stores).imp_right (shown part))
      fun _ _ isArrow => .inl isArrow,
    guard.keeps_extends holds.inside (.newObject _ _)⟩

theorem newFunction (holds : guard.Holds world) {function : FunctionValue}
    (admitted : ∀ closure, function.body = .arrow closure → guard.admits closure.scope) :
    guard.Leads world { world with heap := (world.heap.newFunction function).2 } := by
  refine ⟨holds.withHeap (Nat.le_refl _) (fun _ _ stores => .inl (Heap.stores_newFunction stores))
    ?_, guard.keeps_extends holds.inside (.newFunction _ _)⟩
  intro ref closure isArrow
  rw [Heap.function_newFunction] at isArrow
  split at isArrow
  · exact .inr (admitted closure isArrow)
  · exact .inl isArrow

theorem newRegExp (holds : guard.Holds world) (regExp : RegExpValue) :
    guard.Leads world { world with heap := (world.heap.newRegExp regExp).2 } :=
  ⟨holds.withHeap (Nat.le_refl _) (fun _ _ stores => .inl (Heap.stores_newRegExp stores))
      fun _ _ isArrow => .inl isArrow,
    guard.keeps_extends holds.inside (.newRegExp _ _)⟩

theorem setArray (holds : guard.Holds world) (mayWrite : guard.permission.write) (ref : ArrayRef)
    {store : ArrayStore} (shown : ∀ value, store.Stores value → guard.Shows value) :
    guard.Leads world { world with heap := world.heap.setArray ref store } :=
  ⟨holds.withHeap (Nat.le_refl _)
      (fun _ part stores => (Heap.stores_setArray stores).imp_right fun new => shown part new.2)
      fun _ _ isArrow => .inl isArrow,
    guard.keeps_aside mayWrite fun _ _ => rfl⟩

theorem setObject (holds : guard.Holds world) (ref : ObjectRef) {record : Record}
    (shown : ∀ value, record.Stores value → guard.Shows value) :
    guard.Holds { world with heap := world.heap.setObject ref record } :=
  holds.withHeap (Nat.le_of_eq Array.size_setIfInBounds.symm)
    (fun _ part stores => (Heap.stores_setObject stores).imp_right fun new => shown part new.2)
    fun _ _ isArrow => .inl isArrow

theorem setEntry (holds : guard.Holds world) (ref : ObjectRef) (key : String)
    (shown : guard.Shows value) : guard.Holds { world with
      heap := world.heap.setObject ref ((world.heap.object ref).set key value) } := by
  apply holds.setObject
  intro part stores
  rcases Record.stores_set stores with old | rfl
  · exact holds.stored (.object ref) part old
  · exact shown

theorem setVisible (holds : guard.Holds world) (mayWrite : guard.permission.write)
    {ref : ObjectRef} (visible : ¬ guard.hidden ref) (key : String)
    (shown : guard.Shows value) : guard.Leads world { world with
      heap := world.heap.setObject ref ((world.heap.object ref).set key value) } := by
  refine ⟨holds.setEntry ref key shown, guard.keeps_aside mayWrite fun other isHidden => ?_⟩
  rw [Heap.object_setObject, if_neg]
  intro same
  exact visible (same.1 ▸ isHidden)

theorem assign (holds : guard.Holds world) (mayWrite : guard.permission.write)
    (admitted : guard.admits scope) (name : String) (shown : guard.Shows value) :
    guard.Leads world { world with heap := world.heap.assign scope name value } :=
  ⟨holds.setEntry _ name shown, guard.keeps_assign mayWrite admitted name value⟩

theorem setProperty (holds : guard.Holds world) (mayWrite : guard.permission.write)
    {object : Value} (shownObject : guard.Shows object) {key : String} (shown : guard.Shows value)
    {heap : Heap} (run : world.heap.setProperty object key value = .ok heap) :
    guard.Leads world { world with heap } := by
  cases object with
  | undefined => cases run
  | null => cases run
  | array ref =>
      simp only [Heap.setProperty, bind, Except.bind] at run
      split at run
      · cases run
      · next store written =>
          cases run
          apply holds.setArray mayWrite
          intro part stores
          rcases Heap.stores_setArrayProperty written stores with old | rfl | rfl
          · exact holds.stored (.array ref) part old
          · exact shows_primitive rfl
          · exact shown
  | object ref =>
      cases run
      exact holds.setVisible mayWrite (fun isHidden => shownObject ref isHidden rfl) key shown
  | _ =>
      cases run
      exact holds.leads

/-! ## Other changes -/

theorem remember (holds : guard.Holds world) (node : NodeId) (shown : guard.Shows value) :
    guard.Leads world { world with memo := world.memo.set node value } := by
  refine ⟨⟨holds.inside, holds.stored, holds.functions, ?_⟩, guard.keeps_memo _ _⟩
  intro entry member
  rcases List.mem_cons.mp member with rfl | old
  · exact shown
  · exact holds.memo entry old

theorem note (holds : guard.Holds world) (mayCall : guard.permission.call)
    (log : List LogEntry) : guard.Leads world { world with log } :=
  ⟨⟨holds.inside, holds.stored, holds.functions, holds.memo⟩, guard.keeps_log mayCall world log⟩

end Holds

end Guard

/-! ## Computations that respect a guard -/

def Respects (guard : Guard) {α : Type} (action : Eval α) (post : α → Prop) : Prop :=
  ∀ before, guard.Holds before →
    match action before with
    | .ok result after => guard.Leads before after ∧ post result
    | .error _ after => guard.Leads before after

def Caller.Spares (guard : Guard) (call : Caller) : Prop :=
  ∀ ref this args, guard.Shows this → (∀ argument ∈ args, guard.Shows argument) →
    Respects guard (call ref this args) guard.Shows

structure Context.Spares (guard : Guard) (context : Context) : Prop where
  scope : guard.admits context.scope
  call : guard.permission.call → context.call.Spares guard

namespace Guard

variable (guard : Guard)

def ShowsRecord (record : Record) : Prop := ∀ value, record.Stores value → guard.Shows value

variable {guard}

theorem shows_object {ref : ObjectRef} : guard.Shows (.object ref) ↔ ¬ guard.hidden ref := by
  constructor
  · exact fun shown isHidden => shown ref isHidden rfl
  · rintro visible _ isHidden ⟨⟩
    exact visible isHidden

/-- The hidden objects are no values, and every step leads to a world that the guard holds of. All
trees may be evaluated, with or without remembered results. -/
def discipline (guard : Guard) : Discipline where
  permission := guard.permission
  Shows := guard.Shows
  Admits := guard.admits
  Owns _ := True
  Recalls _ := True
  Holds := guard.Holds
  Leads := guard.Leads
  refl := Holds.leads
  trans := Leads.trans
  holds := And.left
  shows_plain _ noObject ref _ := noObject ref
  shows_stored holds _ stores := holds.stored _ _ stores
  shows_variable holds _ found := holds.lookup? found
  shows_recalled _ holds found := holds.get?_memo found
  admits_push admitted shown := guard.admits_push admitted (shows_object.mp shown)
  newArray holds _ shown := ⟨holds.newArray shown, fun _ _ => nofun⟩
  newObject holds shown :=
    ⟨holds.newObject shown,
      shows_object.mpr fun isHidden => Nat.lt_irrefl _ (holds.inside _ isHidden)⟩
  newFunction holds admitted := holds.newFunction admitted
  newRegExp regExp holds := holds.newRegExp regExp
  setProperty mayWrite holds shownObject shown run :=
    holds.setProperty mayWrite shownObject shown run
  assign name mayWrite holds admitted shown := holds.assign mayWrite admitted name shown
  remember _ _ _ leads shown := leads.trans (leads.1.remember _ shown)

end Guard

variable {guard : Guard} {α : Type} {action : Eval α} {post : α → Prop}

theorem Obeys.respects (obeys : Obeys guard.discipline action post) :
    Respects guard action post := obeys

theorem Respects.obeys (respects : Respects guard action post) :
    Obeys guard.discipline action post := respects

theorem Context.Spares.abides {context : Context} (spares : context.Spares guard) :
    context.Abides guard.discipline where
  scope := spares.scope
  tree := trivial
  recalls := trivial
  call mayCall ref this args shown shownArgs :=
    (spares.call mayCall ref this args shown shownArgs).obeys

/-! ## Calls -/

/-- Every function of the host respects the guard if it gets shown values, and a way to call back
that respects it. -/
def Host.Spares (guard : Guard) (host : Host) : Prop :=
  ∀ key function, host key = some function → ∀ call : Caller, call.Spares guard →
    ∀ this args, guard.Shows this → (∀ argument ∈ args, guard.Shows argument) →
      Respects guard (function call this args) guard.Shows

theorem Guard.serves (mayCall : guard.permission.call) : guard.discipline.Serves where
  full := guard.full_of_call mayCall
  owns _ := trivial
  recalls := trivial
  functions holds := holds.functions mayCall
  setVariable name holds visible shown :=
    holds.setVisible (guard.full_of_call mayCall).1 (shows_object.mp visible) name shown
  note log holds := holds.note mayCall log

namespace Eval

theorem bindParam_respects {context : Context} (spares : context.Spares guard) (path : Path)
    (index : Nat) {args : List Value} (shown : ∀ argument ∈ args, guard.Shows argument) (param : Pattern)
    (allowed : param.Allowed guard.permission) :
    Respects guard (bindParam context path index args param) guard.ShowsRecord :=
  (bindParam_obeys spares.abides path index shown param allowed).respects

theorem callFunction_spares {host : Host} (spares : host.Spares guard)
    (mayCall : guard.permission.call) (depth : Nat) :
    Caller.Spares guard (callFunction host depth) :=
  callFunction_submits (Guard.serves mayCall) spares depth

end Eval

theorem Library.host_spares (mayCall : guard.permission.call) :
    Host.Spares guard Library.host :=
  host_submits (Guard.serves mayCall)

end ExprScript
