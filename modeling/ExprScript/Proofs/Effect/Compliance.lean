import ExprScript.Proofs.Effect.Policy

/-! # Computations that comply with a policy

The rules below follow the way evaluation is put together from its primitive
steps. A computation may fail at any of them; the state survives a failure, so
that every outcome leads on from the world before.
-/

namespace ExprScript

/-! ## Worlds -/

namespace World

variable {policy : Policy} {tree : Nat} {before middle after : World} {value : Value}

def Trusts (policy : Policy) (world : World) (value : Value) : Prop :=
  world.heap.Trusted policy.Function value

def Recalls (policy : Policy) (tree : Nat) (world : World) : Prop :=
  ∀ path value, world.memo.get? ⟨tree, path⟩ = some value → world.Trusts policy value

/-- The heap has developed by steps, and what the tree remembers is trusted still. -/
structure Leads (policy : Policy) (tree : Nat) (before after : World) : Prop where
  heap : Heap.Evolves policy.Function before.heap after.heap
  recalls : before.Recalls policy tree → after.Recalls policy tree

theorem Leads.refl (world : World) : world.Leads policy tree world := ⟨.refl, id⟩

theorem Leads.trans (first : before.Leads policy tree middle)
    (second : middle.Leads policy tree after) : before.Leads policy tree after :=
  ⟨first.heap.trans second.heap, fun recalls => second.recalls (first.recalls recalls)⟩

theorem Leads.trusts (leads : before.Leads policy tree after)
    (trusted : before.Trusts policy value) : after.Trusts policy value :=
  leads.heap.trusted trusted

theorem Leads.of_heap (evolves : Heap.Evolves policy.Function before.heap after.heap)
    (sameMemo : after.memo = before.memo) : before.Leads policy tree after := by
  refine ⟨evolves, fun recalls path value found => evolves.trusted (recalls path value ?_)⟩
  rw [← sameMemo]
  exact found

theorem Leads.remember (world : World) (node : NodeId) (trusted : world.Trusts policy value) :
    world.Leads policy tree { world with memo := world.memo.set node value } := by
  refine ⟨.refl, fun recalls path other found => ?_⟩
  change List.lookup _ ((node, value) :: world.memo) = some other at found
  rw [List.lookup_cons] at found
  split at found
  · cases found
    exact trusted
  · exact recalls path other found

end World

/-! ## Failures of heap operations -/

def Heap.Fails {α : Type} (result : Except Error α) : Prop :=
  ∀ failure, result = .error failure →
    ∃ cause : Cause, cause.kind ≠ .syntaxError ∧ failure = { cause }

namespace Heap

variable (heap : Heap) (value : Value) (key : String)

theorem fails_fail {α : Type} {cause : Cause} (notSyntax : cause.kind ≠ .syntaxError) :
    Fails (fail cause : Except Error α) := by
  intro failure run
  cases run
  exact ⟨cause, notSyntax, rfl⟩

theorem fails_ok {α : Type} (result : α) : Fails (.ok result) := nofun

theorem Fails.bind {α β : Type} {result : Except Error α} {next : α → Except Error β}
    (fails : Fails result) (later : ∀ value, Fails (next value)) : Fails (result >>= next) := by
  cases result with
  | error failure =>
      intro failure' run
      cases run
      exact fails _ rfl
  | ok value => exact later value

theorem getProperty_fails : Fails (heap.getProperty value key) := by
  cases value with
  | undefined => exact fails_fail nofun
  | null => exact fails_fail nofun
  | _ => exact fails_ok _

theorem invalidLength_fails {α : Type} : Fails (ArrayStore.invalidLength : Except Error α) :=
  fails_fail nofun

theorem setArrayProperty_fails (store : ArrayStore) :
    Fails (heap.setArrayProperty store key value) := by
  unfold setArrayProperty
  split
  · split
    · unfold ArrayStore.setLength
      split
      · exact invalidLength_fails
      · exact fails_ok _
    · exact invalidLength_fails
  · split
    · unfold ArrayStore.set
      split
      · exact invalidLength_fails
      · dsimp only
        split
        · exact fails_ok _
        · split <;> exact fails_ok _
    · exact fails_ok _

theorem setProperty_fails (object : Value) : Fails (heap.setProperty object key value) := by
  cases object with
  | undefined => exact fails_fail nofun
  | null => exact fails_fail nofun
  | array ref => exact (setArrayProperty_fails heap value key _).bind fun _ => fails_ok _
  | _ => exact fails_ok _

theorem iterate_fails : Fails (heap.iterate value) := by
  cases value with
  | array => exact fails_ok _
  | string => exact fails_ok _
  | _ => exact fails_fail nofun

theorem binary_fails (op : BinaryOp) (left right : Value) : Fails (heap.binary op left right) := by
  cases op with
  | isIn =>
      refine Fails.bind ?_ fun _ => fails_ok _
      cases right with
      | object | array | function | regExp => exact fails_ok _
      | _ => exact fails_fail nofun
  | isInstance =>
      refine Fails.bind ?_ fun _ => fails_ok _
      cases right with
      | function creator => cases left <;> exact fails_ok _
      | _ => exact fails_fail nofun
  | _ => exact fails_ok _

theorem trusted_binary {good : FunctionValue → Prop} {op : BinaryOp} {left right result : Value}
    (run : heap.binary op left right = .ok result) : heap.Trusted good result :=
  trusted_primitive (primitive_binary run)

theorem trusted_unary {good : FunctionValue → Prop} (op : UnaryOp) :
    heap.Trusted good (heap.unary op value) :=
  trusted_primitive (primitive_unary op)

end Heap

/-! ## Compliance -/

/-- Every outcome of the action leads on from the world before it. If there is a
result, the postcondition holds; an error is one of those that are allowed. -/
def Complies (policy : Policy) (tree : Nat) (errors : Error → Prop) {α : Type} (action : Eval α)
    (before : World) (post : α → World → Prop) : Prop :=
  match action before with
  | .ok result after => before.Leads policy tree after ∧ post result after
  | .error failure after => before.Leads policy tree after ∧
      ∀ error, failure = .raised error → errors error

namespace Complies

variable {policy : Policy} {tree : Nat} {errors : Error → Prop} {α β : Type} {before : World}
  {post : β → World → Prop}

theorem weaken {action : Eval α} {post : α → World → Prop} {wider : Error → Prop}
    (complies : Complies policy tree errors action before post)
    (within : ∀ error, errors error → wider error) :
    Complies policy tree wider action before post := by
  unfold Complies at complies ⊢
  split at complies
  · exact complies
  · exact ⟨complies.1, fun error equal => within error (complies.2 error equal)⟩

theorem pure {post : α → World → Prop} {result : α} (holds : post result before) :
    Complies policy tree errors (Pure.pure result) before post :=
  ⟨.refl before, holds⟩

theorem raise {post : α → World → Prop} {cause : Cause} {position : Position}
    (allowed : errors { cause, position }) :
    Complies policy tree errors (Eval.raise cause position) before post := by
  refine ⟨.refl before, fun error equal => ?_⟩
  cases equal
  exact allowed

theorem bind {action : Eval α} {next : α → Eval β} {middlePost : α → World → Prop}
    (first : Complies policy tree errors action before middlePost)
    (rest : ∀ value middle, before.Leads policy tree middle → middlePost value middle →
      Complies policy tree errors (next value) middle post) :
    Complies policy tree errors (action >>= next) before post := by
  unfold Complies at first ⊢
  simp only [Bind.bind, EStateM.bind]
  cases run : action before with
  | error failure middle =>
      rw [run] at first
      exact first
  | ok value middle =>
      rw [run] at first
      have later := rest value middle first.1 first.2
      unfold Complies at later
      dsimp only
      split at later
      · exact ⟨first.1.trans later.1, later.2⟩
      · exact ⟨first.1.trans later.1, later.2⟩

/-- The last step only puts the result together. -/
theorem andThen {action : Eval α} {build : α → β} {middlePost : α → World → Prop}
    (first : Complies policy tree errors action before middlePost)
    (holds : ∀ value after, before.Leads policy tree after → middlePost value after →
      post (build value) after) :
    Complies policy tree errors (do return build (← action)) before post :=
  first.bind fun value after leads result => pure (holds value after leads result)

theorem inspect {read : Heap → α} {next : α → Eval β}
    (rest : Complies policy tree errors (next (read before.heap)) before post) :
    Complies policy tree errors (Eval.inspect read >>= next) before post :=
  rest

theorem inspected {post : α → World → Prop} {read : Heap → α}
    (holds : post (read before.heap) before) :
    Complies policy tree errors (Eval.inspect read) before post :=
  ⟨.refl before, holds⟩

theorem heap {next : Heap → Eval β}
    (rest : Complies policy tree errors (next before.heap) before post) :
    Complies policy tree errors (Eval.heap >>= next) before post :=
  rest

theorem allocate {post : α → World → Prop} {new : Heap → α × Heap}
    (evolves : Heap.Evolves policy.Function before.heap (new before.heap).2)
    (holds : post (new before.heap).1 { before with heap := (new before.heap).2 }) :
    Complies policy tree errors (Eval.allocate new) before post :=
  ⟨.of_heap evolves rfl, holds⟩

theorem anchored {action : Eval α} {post : α → World → Prop} {raw : Error → Prop}
    {position : Position} (complies : Complies policy tree raw action before post)
    (allowed : ∀ failure, raw failure → errors (failure.anchoredAt position)) :
    Complies policy tree errors (Eval.anchored position action) before post := by
  unfold Complies at complies ⊢
  simp only [Eval.anchored, EStateM.run]
  cases run : action before with
  | ok result after =>
      rw [run] at complies
      exact complies
  | error failure after =>
      rw [run] at complies
      cases failure with
      | exhausted => exact ⟨complies.1, nofun⟩
      | raised error =>
          refine ⟨complies.1, fun error' equal => ?_⟩
          cases equal
          exact allowed error (complies.2 error rfl)

/-- An operation on the heap whose errors are blamed on a place. -/
theorem operation {result : Except Error α} {post : α → World → Prop} {position : Position}
    (fails : Heap.Fails result)
    (allowed : ∀ cause : Cause, cause.kind ≠ .syntaxError → errors { cause, position })
    (holds : ∀ value, result = .ok value → post value before) :
    Complies policy tree errors (Eval.anchored position (Eval.ofExcept result)) before post := by
  cases result with
  | ok value => exact ⟨.refl before, holds value rfl⟩
  | error failure =>
      rcases fails failure rfl with ⟨cause, notSyntax, rfl⟩
      refine ⟨.refl before, fun error equal => ?_⟩
      cases equal
      exact allowed cause notSyntax

/-! ### Primitive steps of evaluation -/

variable {position : Position}

section Primitive

variable (allowed : ∀ cause : Cause, cause.kind ≠ .syntaxError → errors { cause, position })

include allowed

theorem readProperty {object : Value} (key : String) (trusted : before.Trusts policy object) :
    Complies policy tree errors (Eval.readProperty position object key) before
      fun value after => after.Trusts policy value :=
  heap (operation (Heap.getProperty_fails _ _ _) allowed fun _ run =>
    Heap.trusted_getProperty trusted run)

theorem writeProperty (object : Value) (key : String) {value : Value}
    (trusted : before.Trusts policy value) :
    Complies policy tree errors (Eval.writeProperty position object key value) before
      fun _ _ => True := by
  have writes : Complies policy tree errors
      (Eval.anchored position (Eval.ofExcept (before.heap.setProperty object key value))) before
      fun changed middle => Heap.Evolves policy.Function middle.heap changed :=
    operation (Heap.setProperty_fails _ _ _ _) allowed fun _ run =>
      Heap.evolves_setProperty trusted run
  exact heap (writes.bind fun _ _ _ evolves => ⟨.of_heap evolves rfl, trivial⟩)

theorem applyBinary (op : BinaryOp) (left right : Value) :
    Complies policy tree errors (Eval.applyBinary position op left right) before
      fun value after => after.Trusts policy value :=
  heap (operation (Heap.binary_fails _ _ _ _) allowed fun _ run => Heap.trusted_binary _ run)

theorem spreadValues {value : Value} (trusted : before.Trusts policy value) :
    Complies policy tree errors (Eval.spreadValues position value) before
      fun values after => ∀ item ∈ values, after.Trusts policy item :=
  heap (operation (Heap.iterate_fails _ _) allowed fun _ run => Heap.trusted_iterate trusted run)

theorem nullishTarget {post : α → World → Prop} (value : Value) :
    Complies policy tree errors (Eval.nullishTarget position value) before post :=
  inspect (raise (allowed _ nofun))

end Primitive

theorem allocateArray {store : ArrayStore} (isWhole : store.IsWhole)
    (trusted : ∀ value, store.Stores value → before.Trusts policy value) :
    Complies policy tree errors (Eval.allocate fun heap => heap.newArray store) before
      fun ref after => after.Trusts policy (.array ref) :=
  allocate (.single (.newArray store isWhole trusted)) (Heap.trusted_newArray isWhole trusted)

theorem newArray {elements : List Value} (trusted : ∀ value ∈ elements, before.Trusts policy value) :
    Complies policy tree errors (Eval.newArray elements) before
      fun array after => after.Trusts policy array := by
  have stored : ∀ value, (ArrayStore.ofList elements).Stores value →
      before.Trusts policy value :=
    fun value stores => trusted value (ArrayStore.mem_of_stores_ofList stores)
  exact (allocateArray (ArrayStore.isWhole_ofList elements) stored).andThen
    fun _ _ _ result => result

theorem newObject {record : Record} (trusted : ∀ value, record.Stores value →
      before.Trusts policy value) :
    Complies policy tree errors (Eval.newObject record) before
      fun object after => after.Trusts policy object := by
  have allocates : Complies policy tree errors (Eval.allocate fun heap => heap.newObject record)
      before fun ref after => after.Trusts policy (.object ref) :=
    allocate (.single (.newObject record trusted)) (Heap.trusted_newObject trusted)
  exact allocates.andThen fun _ _ _ result => result

theorem templateStrings (quasis : List Quasi) :
    Complies policy tree errors (Eval.templateStrings quasis) before
      fun strings after => after.Trusts policy strings := by
  have primitive : ∀ (text : Quasi → String) (world : World),
      ∀ value ∈ quasis.map fun quasi => Value.string (text quasi), world.Trusts policy value := by
    intro text world value member
    rcases List.mem_map.mp member with ⟨quasi, -, rfl⟩
    exact Heap.trusted_primitive rfl
  refine bind (newArray (primitive (·.raw) before)) fun raw middle _ trusted => ?_
  have stored : ∀ value, ((ArrayStore.ofList
      (quasis.map fun quasi => .string quasi.cooked)).setNamed "raw" raw).Stores value →
      middle.Trusts policy value := by
    intro value stores
    rcases ArrayStore.stores_setNamed stores with cooked | rfl
    · exact primitive (·.cooked) middle value (ArrayStore.mem_of_stores_ofList cooked)
    · exact trusted
  have isWhole : ((ArrayStore.ofList (quasis.map fun quasi => .string quasi.cooked)).setNamed
      "raw" raw).IsWhole :=
    ArrayStore.isWhole_ofList _
  exact (allocateArray isWhole stored).andThen fun _ _ _ result => result

theorem valueOf {action : Eval Outcome}
    (complies : Complies policy tree errors action before fun outcome after =>
      ∀ this value, outcome = some (this, value) →
        after.Trusts policy this ∧ after.Trusts policy value) :
    Complies policy tree errors (Eval.valueOf action) before
      fun value after => after.Trusts policy value := by
  refine complies.andThen fun outcome after _ trusted => ?_
  cases outcome with
  | none => exact Heap.trusted_primitive rfl
  | some result => exact (trusted _ _ rfl).2

end Complies

end ExprScript
