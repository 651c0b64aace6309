import ExprScript.Eval.Call
import ExprScript.Proofs.ArrayStore
import ExprScript.Proofs.Effect.Heap
import ExprScript.Proofs.Growth
import ExprScript.Proofs.Discipline.Permission
import ExprScript.Proofs.Outcome

/-! # Disciplines

A discipline says what code may do, which values and scopes it may have, and how each of its
steps leads from one world to the next. A computation obeys if it leads on from every world that
the discipline holds of, whether or not it has a result. The rules follow the way evaluation is
put together, so that only the steps have to be looked at for a new discipline.
-/

namespace ExprScript

/-- What code may do and have, and the worlds that its steps lead to. -/
structure Discipline where
  permission : Permission
  /-- The values that code may have. -/
  Shows : Value → Prop
  /-- The scopes that code may have. -/
  Admits : Scope → Prop
  /-- The trees whose nodes may be evaluated. -/
  Owns : Nat → Prop
  /-- Whether remembered results are used or left aside. -/
  Recalls : Bool → Prop
  Holds : World → Prop
  Leads : World → World → Prop
  refl : ∀ {world}, Holds world → Leads world world
  trans : ∀ {before middle after}, Leads before middle → Leads middle after → Leads before after
  holds : ∀ {before after}, Leads before after → Holds after
  shows_plain : ∀ {value : Value}, (∀ ref, value ≠ .array ref) → (∀ ref, value ≠ .object ref) →
    Shows value
  shows_stored : ∀ {world value part}, Holds world → Shows value →
    world.heap.Stores value part → Shows part
  shows_variable : ∀ {world scope name value}, Holds world → Admits scope →
    world.heap.lookup? scope name = some value → Shows value
  shows_recalled : ∀ {world : World} {node value}, Recalls true → Holds world →
    world.memo.get? node = some value → Shows value
  admits_push : ∀ {scope frame}, Admits scope → Shows (.object frame) → Admits (scope.push frame)
  newArray : ∀ {world store}, Holds world → store.Reachable →
    (∀ value, store.Stores value → Shows value) →
      Leads world { world with heap := (world.heap.newArray store).2 } ∧
        Shows (.array (world.heap.newArray store).1)
  newObject : ∀ {world record}, Holds world → (∀ value, record.Stores value → Shows value) →
    Leads world { world with heap := (world.heap.newObject record).2 } ∧
      Shows (.object (world.heap.newObject record).1)
  newFunction : ∀ {world : World} {function}, Holds world →
    (∀ closure, function.body = .arrow closure → Admits closure.scope) →
      Leads world { world with heap := (world.heap.newFunction function).2 }
  newRegExp : ∀ {world} regExp, Holds world →
    Leads world { world with heap := (world.heap.newRegExp regExp).2 }
  setProperty : ∀ {world object key value heap}, permission.write → Holds world →
    Shows object → Shows value → world.heap.setProperty object key value = .ok heap →
      Leads world { world with heap }
  assign : ∀ {world scope value} name, permission.write → Holds world → Admits scope →
    Shows value → Leads world { world with heap := world.heap.assign scope name value }
  /-- A result is remembered, and if remembered results are used then there was none before. -/
  remember : ∀ {before middle : World} {node value used}, Recalls used → Owns node.tree →
    (used = true → before.memo.get? node = none) → Leads before middle → Shows value →
      Leads before { middle with memo := middle.memo.set node value }

namespace Discipline

variable (discipline : Discipline)

def ShowsOutcome (outcome : Outcome) : Prop :=
  ∀ this value, outcome = some (this, value) → discipline.Shows this ∧ discipline.Shows value

def ShowsReference : Reference → Prop
  | .name _ => True
  | .property object _ _ => discipline.Shows object

def ShowsRecord (record : Record) : Prop := ∀ value, record.Stores value → discipline.Shows value

variable {discipline}

theorem shows_primitive {value : Value} (primitive : value.isObjectLike = false) :
    discipline.Shows value := by
  apply discipline.shows_plain
  · rintro ref rfl
    cases primitive
  · rintro ref rfl
    cases primitive

theorem shows_shared {world : World} {value part : Value} (holds : discipline.Holds world)
    (shown : discipline.Shows value) (shares : world.heap.Shares value part) :
    discipline.Shows part := by
  rcases shares with primitive | stores
  · exact shows_primitive primitive
  · exact discipline.shows_stored holds shown stores

theorem shows_this {world : World} {scope : Scope} (holds : discipline.Holds world)
    (admitted : discipline.Admits scope) : discipline.Shows (world.heap.thisValue scope) := by
  unfold Heap.thisValue Heap.lookup
  cases found : world.heap.lookup? scope Scope.thisName with
  | none => exact shows_primitive rfl
  | some value => exact discipline.shows_variable holds admitted found

theorem showsOutcome_some {this value : Value} (shown : discipline.Shows this)
    (shown' : discipline.Shows value) : discipline.ShowsOutcome (some (this, value)) := by
  intro this' value' equal
  cases equal
  exact ⟨shown, shown'⟩

theorem showsOutcome_plain {value : Value} (shown : discipline.Shows value) :
    discipline.ShowsOutcome (Eval.plain value) :=
  showsOutcome_some (shows_primitive rfl) shown

theorem showsRecord_empty : discipline.ShowsRecord {} :=
  fun _ stores => (Record.not_stores_empty stores).elim

theorem ShowsRecord.set {record : Record} (shown : discipline.ShowsRecord record) (key : String)
    {value : Value} (shown' : discipline.Shows value) :
    discipline.ShowsRecord (record.set key value) := by
  intro part stores
  rcases Record.stores_set stores with old | rfl
  · exact shown part old
  · exact shown'

theorem ShowsRecord.setAll {record : Record} (shown : discipline.ShowsRecord record)
    {entries : List (String × Value)} (shown' : ∀ entry ∈ entries, discipline.Shows entry.2) :
    discipline.ShowsRecord (record.setAll entries) := by
  intro part stores
  rcases Record.stores_setAll stores with old | ⟨name, new⟩
  · exact shown part old
  · exact shown' (name, part) new

end Discipline

/-- Every outcome leads on from the world before, and a result satisfies the postcondition. -/
def Obeys (discipline : Discipline) {α : Type} (action : Eval α) (post : α → Prop) : Prop :=
  ∀ before, discipline.Holds before →
    match action before with
    | .ok result after => discipline.Leads before after ∧ post result
    | .error _ after => discipline.Leads before after

structure Context.Abides (discipline : Discipline) (context : Context) : Prop where
  scope : discipline.Admits context.scope
  tree : discipline.Owns context.tree
  recalls : discipline.Recalls context.useMemo
  call : discipline.permission.call → ∀ ref this args, discipline.Shows this →
    (∀ argument ∈ args, discipline.Shows argument) →
      ExprScript.Obeys discipline (context.call ref this args) discipline.Shows

namespace Obeys

open Discipline

variable {discipline : Discipline} {α β : Type} {post : β → Prop}

theorem leads {action : Eval α} {post : α → Prop} (obeys : Obeys discipline action post)
    {before : World} (holds : discipline.Holds before) :
    discipline.Leads before (worldAfter (action before)) := by
  have outcome := obeys before holds
  cases run : action before with
  | ok result after =>
      rw [run] at outcome
      exact outcome.1
  | error failure after =>
      rw [run] at outcome
      exact outcome

theorem pure {post : α → Prop} {result : α} (satisfies : post result) :
    Obeys discipline (Pure.pure result) post :=
  fun _ holds => ⟨discipline.refl holds, satisfies⟩

theorem throw {post : α → Prop} (failure : Failure) :
    Obeys discipline (MonadExcept.throw failure : Eval α) post :=
  fun _ holds => discipline.refl holds

theorem raise {post : α → Prop} (cause : Cause) (position : Position) :
    Obeys discipline (Eval.raise cause position) post :=
  throw _

theorem bind {action : Eval α} {next : α → Eval β} {middlePost : α → Prop}
    (first : Obeys discipline action middlePost)
    (rest : ∀ value, middlePost value → Obeys discipline (next value) post) :
    Obeys discipline (action >>= next) post := by
  intro before holds
  have outcome := first before holds
  cases run : action before with
  | error failure middle =>
      rw [run] at outcome
      rw [bind_failed run]
      exact outcome
  | ok value middle =>
      rw [run] at outcome
      have later := rest value outcome.2 middle (discipline.holds outcome.1)
      rw [bind_run run]
      split
      · next run' =>
          rw [run'] at later
          exact ⟨discipline.trans outcome.1 later.1, later.2⟩
      · next run' =>
          rw [run'] at later
          exact discipline.trans outcome.1 later

theorem andThen {action : Eval α} {build : α → β} {middlePost : α → Prop}
    (first : Obeys discipline action middlePost)
    (satisfies : ∀ value, middlePost value → post (build value)) :
    Obeys discipline (do return build (← action)) post :=
  bind first fun value holds => pure (satisfies value holds)

theorem inspect {read : Heap → α} {next : α → Eval β}
    (rest : ∀ world, discipline.Holds world → Obeys discipline (next (read world.heap)) post) :
    Obeys discipline (Eval.inspect read >>= next) post :=
  fun before holds => rest before holds before holds

theorem inspected {post : α → Prop} {read : Heap → α}
    (satisfies : ∀ world, discipline.Holds world → post (read world.heap)) :
    Obeys discipline (Eval.inspect read) post :=
  fun before holds => ⟨discipline.refl holds, satisfies before holds⟩

theorem heap {next : Heap → Eval β}
    (rest : ∀ world, discipline.Holds world → Obeys discipline (next world.heap) post) :
    Obeys discipline (Eval.heap >>= next) post :=
  fun before holds => rest before holds before holds

theorem anchored {action : Eval α} {post : α → Prop} (obeys : Obeys discipline action post)
    (position : Position) : Obeys discipline (Eval.anchored position action) post := by
  intro before holds
  have outcome := obeys before holds
  unfold Eval.anchored EStateM.run
  cases run : action before with
  | ok result after =>
      rw [run] at outcome
      exact outcome
  | error failure after =>
      rw [run] at outcome
      cases failure <;> exact outcome

theorem ofExcept {result : Except Error α} {post : α → Prop}
    (satisfies : ∀ value, result = .ok value → post value) :
    Obeys discipline (Eval.ofExcept result) post := by
  cases result with
  | ok value => exact pure (satisfies value rfl)
  | error failure => exact throw _

/-! ## Steps on the heap -/

variable {value : Value}

theorem allocateArray {store : ArrayStore} (reachable : store.Reachable)
    (shown : ∀ value, store.Stores value → discipline.Shows value) :
    Obeys discipline (Eval.allocate fun heap => heap.newArray store)
      fun ref => discipline.Shows (.array ref) :=
  fun _ holds => discipline.newArray holds reachable shown

theorem newArray {elements : List Value} (shown : ∀ value ∈ elements, discipline.Shows value) :
    Obeys discipline (Eval.newArray elements) discipline.Shows :=
  andThen (allocateArray (.ofList elements) fun value stores =>
    shown value (ArrayStore.mem_of_stores_ofList stores)) fun _ => id

theorem newObject {record : Record} (shown : discipline.ShowsRecord record) :
    Obeys discipline (Eval.newObject record) discipline.Shows := by
  have allocates : Obeys discipline (Eval.allocate fun heap => heap.newObject record)
      fun ref => discipline.Shows (.object ref) :=
    fun _ holds => discipline.newObject holds shown
  exact andThen allocates fun _ => id

theorem newRegExp (regExp : RegExpValue) :
    Obeys discipline (Eval.allocate fun heap => heap.newRegExp regExp) fun _ => True :=
  fun _ holds => ⟨discipline.newRegExp regExp holds, trivial⟩

theorem templateStrings (quasis : List Quasi) :
    Obeys discipline (Eval.templateStrings quasis) discipline.Shows := by
  have texts : ∀ (text : Quasi → String), ∀ value ∈ quasis.map fun quasi =>
      Value.string (text quasi), discipline.Shows value := by
    intro text value member
    rcases List.mem_map.mp member with ⟨quasi, -, rfl⟩
    exact shows_primitive rfl
  apply bind (newArray (texts (·.raw)))
  intro raw shown
  have reachable := (ArrayStore.Reachable.ofList (quasis.map fun quasi =>
    Value.string quasi.cooked)).setNamed "raw" raw
  refine andThen (allocateArray reachable fun value stores => ?_) fun _ => id
  rcases ArrayStore.stores_setNamed stores with cooked | rfl
  · exact texts (·.cooked) value (ArrayStore.mem_of_stores_ofList cooked)
  · exact shown

theorem readProperty (position : Position) {object : Value} (shown : discipline.Shows object)
    (key : String) : Obeys discipline (Eval.readProperty position object key) discipline.Shows :=
  heap fun _ holds => anchored (ofExcept fun _ run =>
    shows_shared holds shown (Heap.shares_getProperty run)) position

theorem spreadValues (position : Position) (shown : discipline.Shows value) :
    Obeys discipline (Eval.spreadValues position value)
      fun values => ∀ item ∈ values, discipline.Shows item :=
  heap fun _ holds => anchored (ofExcept fun _ run item member =>
    shows_shared holds shown (Heap.shares_iterate run item member)) position

theorem applyBinary (position : Position) (op : BinaryOp) (left right : Value) :
    Obeys discipline (Eval.applyBinary position op left right) discipline.Shows :=
  heap fun _ _ => anchored (ofExcept fun _ run =>
    shows_primitive (Heap.primitive_binary run)) position

theorem nullishTarget {post : α → Prop} (position : Position) (value : Value) :
    Obeys discipline (Eval.nullishTarget position value) post :=
  inspect fun _ _ => raise _ _

theorem writeProperty (mayWrite : discipline.permission.write) (position : Position)
    {object : Value} (shownObject : discipline.Shows object) (key : String)
    (shown : discipline.Shows value) :
    Obeys discipline (Eval.writeProperty position object key value) fun _ => True := by
  intro before holds
  have evaluated : Eval.writeProperty position object key value before = (do
      Eval.setHeap (← Eval.anchored position
        (Eval.ofExcept (before.heap.setProperty object key value)))) before := rfl
  rw [evaluated]
  cases run : before.heap.setProperty object key value with
  | error failure => exact discipline.refl holds
  | ok heap => exact ⟨discipline.setProperty mayWrite holds shownObject shown run, trivial⟩

/-! ## Steps in a context -/

variable {context : Context}

theorem plain {action : Eval Value} (obeys : Obeys discipline action discipline.Shows) :
    Obeys discipline (do return Eval.plain (← action)) discipline.ShowsOutcome :=
  andThen obeys fun _ => showsOutcome_plain

theorem valueOf {action : Eval Outcome} (obeys : Obeys discipline action discipline.ShowsOutcome) :
    Obeys discipline (Eval.valueOf action) discipline.Shows := by
  apply andThen obeys
  intro outcome shown
  cases outcome with
  | none => exact shows_primitive rfl
  | some result => exact (shown _ _ rfl).2

theorem memoized (ready : context.Abides discipline) (path : Path) {action : Eval Value}
    (obeys : Obeys discipline action discipline.Shows) :
    Obeys discipline (Eval.memoized context path action) discipline.Shows := by
  intro before holds
  cases found : (if context.useMemo then before.memo.get? ⟨context.tree, path⟩ else none) with
  | some value =>
      have run : Eval.memoized context path action before = .ok value before := by
        simp only [Eval.memoized, Bind.bind, EStateM.bind, MonadState.get, getThe,
          MonadStateOf.get, EStateM.get, found]
        rfl
      rw [run]
      split at found
      · next used =>
          have recalls : discipline.Recalls true := used ▸ ready.recalls
          exact ⟨discipline.refl holds, discipline.shows_recalled recalls holds found⟩
      · cases found
  | none =>
      have run : Eval.memoized context path action before = (do
          let value ← action
          modify fun world : World =>
            { world with memo := world.memo.set ⟨context.tree, path⟩ value }
          return value) before := by
        simp only [Eval.memoized, Bind.bind, EStateM.bind, MonadState.get, getThe,
          MonadStateOf.get, EStateM.get, found]
      have new : context.useMemo = true → before.memo.get? ⟨context.tree, path⟩ = none := by
        intro used
        rwa [used, if_pos rfl] at found
      have outcome := obeys before holds
      rw [run]
      cases evaluated : action before with
      | error failure middle =>
          rw [evaluated] at outcome
          rwa [bind_failed evaluated]
      | ok value middle =>
          rw [evaluated] at outcome
          rw [bind_run evaluated]
          exact ⟨discipline.remember ready.recalls ready.tree new outcome.1 outcome.2, outcome.2⟩

theorem readName (ready : context.Abides discipline) (id : Ident) :
    Obeys discipline (Eval.readName context id) discipline.Shows := by
  apply inspect
  intro world holds
  split
  · next value found => exact pure (discipline.shows_variable holds ready.scope found)
  · split
    · exact pure (shows_primitive rfl)
    · exact raise _ _

theorem readReference (ready : context.Abides discipline) {reference : Reference}
    (shown : discipline.ShowsReference reference) :
    Obeys discipline (Eval.readReference context reference) discipline.Shows := by
  cases reference with
  | name id => exact readName ready id
  | property object key position => exact readProperty position shown key

theorem assign (mayWrite : discipline.permission.write) (ready : context.Abides discipline)
    (name : String) (shown : discipline.Shows value) :
    Obeys discipline (Eval.modifyHeap fun heap => heap.assign context.scope name value)
      fun _ => True :=
  fun _ holds => ⟨discipline.assign name mayWrite holds ready.scope shown, trivial⟩

theorem writeReference (mayWrite : discipline.permission.write) (ready : context.Abides discipline)
    {reference : Reference} (shown : discipline.ShowsReference reference)
    (shown' : discipline.Shows value) :
    Obeys discipline (Eval.writeReference context reference value) fun _ => True := by
  cases reference with
  | name id => exact assign mayWrite ready id.name shown'
  | property object key position => exact writeProperty mayWrite position shown key shown'

theorem callValue (ready : context.Abides discipline) (mayCall : discipline.permission.call)
    (position : Position) (callee : Expr) (function : Value) {this : Value} {args : List Value}
    (shown : discipline.Shows this) (shownArgs : ∀ argument ∈ args, discipline.Shows argument) :
    Obeys discipline (Eval.callValue context position callee function this args)
      discipline.Shows := by
  unfold Eval.callValue
  split
  · exact anchored (ready.call mayCall _ _ _ shown shownArgs) position
  · exact raise _ _
  · exact raise _ _

theorem constructValue (ready : context.Abides discipline) (mayCall : discipline.permission.call)
    (position : Position) (callee : Expr) (function : Value) {args : List Value}
    (shownArgs : ∀ argument ∈ args, discipline.Shows argument) :
    Obeys discipline (Eval.constructValue context position callee function args)
      discipline.Shows := by
  unfold Eval.constructValue
  split
  · next ref =>
      apply inspect
      intro world _
      split
      · have fresh : discipline.ShowsRecord { constructor? := some ref } := by
          intro value stores
          rcases stores with ⟨_, member⟩
          cases member
        apply bind (newObject fresh)
        intro this shown
        apply andThen (anchored (ready.call mayCall ref this args shown shownArgs) position)
        intro result shownResult
        split
        · exact shownResult
        · exact shown
      · exact raise _ _
  · exact raise _ _
  · exact raise _ _

theorem createFunction (ready : context.Abides discipline) (path : Path) (params : List Pattern)
    (body : Expr) :
    Obeys discipline (Eval.createFunction context path params body) discipline.Shows := by
  have allocates : Obeys discipline (Eval.allocate fun heap => heap.newFunction
      { name := "", constructible := false
        body := .arrow { tree := context.tree, path, params, body, scope := context.scope } })
      fun ref => discipline.Shows (.function ref) := by
    intro before holds
    refine ⟨discipline.newFunction holds ?_, discipline.shows_plain nofun nofun⟩
    intro closure equal
    cases equal
    exact ready.scope
  exact andThen allocates fun _ => id

theorem newChild {scope : Scope} (admitted : discipline.Admits scope) {record : Record}
    (shown : discipline.ShowsRecord record) :
    Obeys discipline (Eval.allocate fun heap => heap.newChild scope record)
      fun inner => discipline.Admits inner ∧ discipline.Shows (.object inner.inner) := by
  intro before holds
  have allocates := discipline.newObject holds shown
  exact ⟨allocates.1, discipline.admits_push admitted allocates.2, allocates.2⟩

/-- Names that a pattern has bound so far become visible. -/
theorem inPattern (ready : context.Abides discipline) {bindings : Record}
    (shown : discipline.ShowsRecord bindings) {next : Context → Eval α} {post : α → Prop}
    (rest : ∀ scope, Context.Abides discipline { context with scope } →
      Obeys discipline (next { context with scope }) post) :
    Obeys discipline (Eval.patternContext context bindings >>= next) post := by
  simp only [Eval.patternContext, bind_assoc, pure_bind]
  apply bind (newChild ready.scope shown)
  intro scope admitted
  exact rest scope ⟨admitted.1, ready.tree, ready.recalls, ready.call⟩

/-- Variables get their values one after the other. -/
theorem modifyAll {write : Heap → String × Value → Heap} {bindings : Record}
    (single : ∀ entry, discipline.Shows entry.2 → Obeys discipline
      (Eval.modifyHeap fun heap => write heap entry) fun _ => True)
    (shown : discipline.ShowsRecord bindings) :
    Obeys discipline (Eval.modifyHeap fun heap => bindings.entries.foldl write heap)
      fun _ => True := by
  have all : ∀ entry ∈ bindings.entries, discipline.Shows entry.2 :=
    fun entry member => shown entry.2 ⟨entry.1, member⟩
  generalize bindings.entries = entries at all
  induction entries with
  | nil => exact fun _ holds => ⟨discipline.refl holds, trivial⟩
  | cons entry entries induction =>
      rcases List.forall_mem_cons.mp all with ⟨here, later⟩
      exact bind (single entry here) fun _ _ => induction later

end Obeys

end ExprScript
