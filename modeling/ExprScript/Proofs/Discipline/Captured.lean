import ExprScript.Eval.Library
import ExprScript.Proofs.Binding.Parameters
import ExprScript.Proofs.Discipline.Evaluation

/-! # Parameters stay in the frame of their call

The frames that a function has captured are objects of the heap. As long as no value refers to
them, code gets at them through its scope only. The frame of a call stands before them, and it
has the names of the parameters by the time the body is evaluated: whatever the body assigns to
these names ends there, or in a frame further inside.
-/

namespace ExprScript

namespace Heap

def Has (heap : Heap) : Value → Prop
  | .array ref => ref.index < heap.arrays.size
  | .object ref => ref.index < heap.objects.size
  | _ => False

theorem Stores.has {heap : Heap} {value part : Value} (stores : heap.Stores value part) :
    heap.Has value := by
  cases value with
  | array ref =>
      by_contra outside
      have missing : heap.array ref = {} := by
        rw [array, Array.getElem?_eq_none (Nat.not_lt.mp outside)]
        rfl
      change (heap.array ref).Stores part at stores
      rw [missing] at stores
      rcases stores with inside | ⟨_, far⟩ | ⟨_, named⟩
      · exact Array.not_mem_empty part inside
      · cases far
      · cases named
  | object ref =>
      by_contra outside
      have missing : heap.object ref = {} := by
        rw [object, Array.getElem?_eq_none (Nat.not_lt.mp outside)]
        rfl
      change (heap.object ref).Stores part at stores
      rw [missing] at stores
      exact Record.not_stores_empty stores
  | _ => exact stores

theorem owner_mem_inner {heap : Heap} {scope : Scope} {inner outer : List ObjectRef}
    {frame : ObjectRef} {name : String} (frames : scope.frames = inner ++ outer)
    (member : frame ∈ inner) (has : (heap.object frame).has name = true) :
    heap.owner scope name ∈ inner := by
  have found : (inner.find? fun frame => (heap.object frame).has name).isSome :=
    List.find?_isSome.mpr ⟨frame, member, has⟩
  rcases Option.isSome_iff_exists.mp found with ⟨first, isFirst⟩
  rw [owner, frames, List.find?_append, isFirst]
  exact List.mem_of_find?_eq_some isFirst

/-- The value is an argument or the value of a variable, or it is found in one of them, at any
depth. -/
inductive Finds (heap : Heap) (scope : Scope) (args : List Value) : Value → Prop
  | argument {value : Value} (member : value ∈ args) : Finds heap scope args value
  | bound {frame : ObjectRef} {value : Value} (member : frame ∈ scope.frames)
      (stores : (heap.object frame).Stores value) : Finds heap scope args value
  | part {value part : Value} (found : Finds heap scope args value)
      (stores : heap.Stores value part) : Finds heap scope args part

/-- The frames of the scope are on the heap, and code that gets the arguments finds none of them
as a value. -/
structure Secludes (heap : Heap) (scope : Scope) (args : List Value) : Prop where
  inside : ∀ frame ∈ scope.frames, frame.index < heap.objects.size
  hidden : ∀ frame ∈ scope.frames, ¬ heap.Finds scope args (.object frame)

end Heap

structure Invocation where
  start : Heap
  captured : Scope
  args : List Value
  /-- The names of the parameters. -/
  names : List String
  secluded : start.Secludes captured args

namespace Invocation

variable (invocation : Invocation)

/-- The frame of the call. -/
def frame : ObjectRef := ⟨invocation.start.objects.size⟩

def Shows (value : Value) : Prop :=
  invocation.start.Has value →
    invocation.start.Finds invocation.captured invocation.args value

def Admits (scope : Scope) : Prop :=
  ∃ inner, scope.frames = inner ++ invocation.captured.frames ∧ invocation.frame ∈ inner ∧
    ∀ frame ∈ inner, invocation.Shows (.object frame)

/-- What is stored in shown containers and in captured frames is shown. The frame of the call is
on the heap, and it has the given names. -/
structure Holds (bound : List String) (world : World) : Prop where
  arrays : invocation.start.arrays.size ≤ world.heap.arrays.size
  objects : invocation.start.objects.size < world.heap.objects.size
  stored : ∀ value part, invocation.Shows value → world.heap.Stores value part →
    invocation.Shows part
  framed : ∀ frame ∈ invocation.captured.frames, ∀ part,
    (world.heap.object frame).Stores part → invocation.Shows part
  bound : ∀ name ∈ bound, (world.heap.object invocation.frame).has name = true

/-- The captured frames have the parameters as they had them, and the frame of the call keeps its
names. -/
structure Keeps (before after : World) : Prop where
  captured : ∀ frame ∈ invocation.captured.frames, ∀ name ∈ invocation.names,
    (after.heap.object frame).get? name = (before.heap.object frame).get? name
  frame : ∀ name, (before.heap.object invocation.frame).has name = true →
    (after.heap.object invocation.frame).has name = true

variable {invocation} {bound : List String} {world before middle after : World} {heap : Heap}
  {value part : Value}

theorem shows_frame : invocation.Shows (.object invocation.frame) :=
  fun inside => absurd inside (Nat.lt_irrefl _)

theorem shows_arg (member : value ∈ invocation.args) : invocation.Shows value :=
  fun _ => .argument member

theorem not_captured {frame : ObjectRef} (shown : invocation.Shows (.object frame)) :
    frame ∉ invocation.captured.frames :=
  fun member => invocation.secluded.hidden frame member
    (shown (invocation.secluded.inside frame member))

namespace Keeps

theorem refl (world : World) : invocation.Keeps world world := ⟨fun _ _ _ _ => rfl, fun _ => id⟩

theorem trans (first : invocation.Keeps before middle) (second : invocation.Keeps middle after) :
    invocation.Keeps before after :=
  ⟨fun frame isFrame name isName =>
    (second.captured frame isFrame name isName).trans (first.captured frame isFrame name isName),
    fun name has => second.frame name (first.frame name has)⟩

theorem setVariable (heap : Heap) {world : World} {ref : ObjectRef} {name : String}
    (apart : ref ∈ invocation.captured.frames → name ∉ invocation.names) (value : Value) :
    invocation.Keeps { world with heap }
      { world with heap := heap.setVariable ref name value } where
  captured := by
    intro frame isFrame key isKey
    by_cases inside : ref.index < heap.objects.size
    · change ((heap.setVariable ref name value).object frame).get? key = _
      rw [Heap.get?_setVariable inside, if_neg]
      rintro ⟨rfl, rfl⟩
      exact apart isFrame isKey
    · change ((heap.setVariable ref name value).object frame).get? key = _
      rw [Heap.setVariable, Heap.object_setObject, if_neg fun same => inside same.2]
  frame := by
    intro key has
    change ((heap.setVariable ref name value).object invocation.frame).has key = true
    by_cases inside : ref.index < heap.objects.size
    · rw [Record.has, Heap.get?_setVariable inside]
      split
      · rfl
      · exact has
    · rwa [Heap.setVariable, Heap.object_setObject, if_neg fun same => inside same.2]

end Keeps

namespace Holds

/-- New places of the heap are taken. -/
theorem grown (holds : invocation.Holds bound world) (grows : world.heap.Extends heap)
    (stored : ∀ value part, heap.Stores value part →
      world.heap.Stores value part ∨ invocation.Shows part) :
    invocation.Holds bound { world with heap } ∧
      invocation.Keeps world { world with heap } := by
  have same : ∀ ref : ObjectRef, ref.index < world.heap.objects.size →
      heap.object ref = world.heap.object ref := fun _ inside => grows.object inside
  have frames : ∀ frame ∈ invocation.captured.frames,
      heap.object frame = world.heap.object frame := fun frame member =>
    same frame (Nat.lt_trans (invocation.secluded.inside frame member) holds.objects)
  constructor
  · constructor
    · exact Nat.le_trans holds.arrays grows.arrays_size_le
    · exact Nat.lt_of_lt_of_le holds.objects grows.objects_size_le
    · intro value part shown stores
      exact (stored value part stores).elim (holds.stored value part shown) id
    · intro frame member part stores
      rw [frames frame member] at stores
      exact holds.framed frame member part stores
    · intro name isBound
      exact (same invocation.frame holds.objects).symm ▸ holds.bound name isBound
  · constructor
    · intro frame member name _
      exact congrArg (·.get? name) (frames frame member)
    · intro name has
      exact (same invocation.frame holds.objects).symm ▸ has

theorem setArray (holds : invocation.Holds bound world) {ref : ArrayRef} {store : ArrayStore}
    (shown : ∀ part, store.Stores part → invocation.Shows part) :
    invocation.Holds bound { world with heap := world.heap.setArray ref store } ∧
      invocation.Keeps world { world with heap := world.heap.setArray ref store } := by
  refine ⟨⟨?_, holds.objects, ?_, holds.framed, holds.bound⟩, fun _ _ _ _ => rfl, fun _ => id⟩
  · exact holds.arrays.trans_eq Array.size_setIfInBounds.symm
  · intro value part shownValue stores
    rcases Heap.stores_setArray stores with old | ⟨-, new⟩
    · exact holds.stored value part shownValue old
    · exact shown part new

/-- A property of an object is written, or a variable of a frame. -/
theorem setVariable (holds : invocation.Holds bound world) {ref : ObjectRef} {name : String}
    (apart : ref ∈ invocation.captured.frames → name ∉ invocation.names)
    (own : invocation.Shows (.object ref) ∨ ref ∈ invocation.captured.frames)
    (shown : invocation.Shows value) :
    invocation.Holds bound { world with heap := world.heap.setVariable ref name value } ∧
      invocation.Keeps world { world with heap := world.heap.setVariable ref name value } := by
  have keeps : invocation.Keeps world
      { world with heap := world.heap.setVariable ref name value } :=
    .setVariable world.heap apart value
  have parts : ∀ part, ((world.heap.object ref).set name value).Stores part →
      invocation.Shows part := by
    intro part stores
    rcases Record.stores_set stores with old | rfl
    · rcases own with shownRef | isFrame
      · exact holds.stored (.object ref) part shownRef old
      · exact holds.framed ref isFrame part old
    · exact shown
  refine ⟨⟨holds.arrays, ?_, ?_, ?_, ?_⟩, keeps⟩
  · exact holds.objects.trans_eq Array.size_setIfInBounds.symm
  · intro container part shownContainer stores
    rcases Heap.stores_setObject stores with old | ⟨-, new⟩
    · exact holds.stored container part shownContainer old
    · exact parts part new
  · intro frame isFrame part stores
    have stores : (world.heap.setVariable ref name value).Stores (.object frame) part := stores
    rcases Heap.stores_setObject stores with old | ⟨-, new⟩
    · exact holds.framed frame isFrame part old
    · exact parts part new
  · exact fun key isBound => keeps.frame key (holds.bound key isBound)

theorem setProperty (holds : invocation.Holds bound world) {object : Value} {key : String}
    (shownObject : invocation.Shows object) (shown : invocation.Shows value)
    (run : world.heap.setProperty object key value = .ok heap) :
    invocation.Holds bound { world with heap } ∧
      invocation.Keeps world { world with heap } := by
  cases object with
  | undefined => cases run
  | null => cases run
  | array ref =>
      simp only [Heap.setProperty, bind, Except.bind] at run
      split at run
      · cases run
      · next store written =>
          cases run
          apply holds.setArray
          intro part stores
          rcases Heap.stores_setArrayProperty written stores with old | rfl | rfl
          · exact holds.stored (.array ref) part shownObject old
          · exact False.elim
          · exact shown
  | object ref =>
      cases run
      exact holds.setVariable (fun isFrame => absurd isFrame (not_captured shownObject))
        (.inl shownObject) shown
  | _ =>
      cases run
      exact ⟨holds, .refl world⟩

/-- A variable is assigned. If it is a parameter, then the frame of the call has it, and no frame
behind that is looked at. -/
theorem assign (holds : invocation.Holds invocation.names world) {scope : Scope}
    (admitted : invocation.Admits scope) (name : String) (shown : invocation.Shows value) :
    invocation.Holds invocation.names
        { world with heap := world.heap.assign scope name value } ∧
      invocation.Keeps world { world with heap := world.heap.assign scope name value } := by
  rcases admitted with ⟨inner, frames, isInner, shownInner⟩
  have owner := world.heap.owner_mem scope name
  rw [frames, List.mem_append] at owner
  apply holds.setVariable
  · intro isFrame isName
    have has := holds.bound name isName
    exact not_captured (shownInner _ (Heap.owner_mem_inner frames isInner has)) isFrame
  · exact owner.imp_left (shownInner _)
  · exact shown

end Holds

def discipline (invocation : Invocation) (bound : List String) (mayWrite : Prop)
    (ready : mayWrite → bound = invocation.names) : Discipline where
  permission := { write := mayWrite, call := False }
  Shows := invocation.Shows
  Admits := invocation.Admits
  Owns _ := True
  Recalls := (· = false)
  Holds := invocation.Holds bound
  Leads before after := invocation.Holds bound after ∧ invocation.Keeps before after
  refl holds := ⟨holds, .refl _⟩
  trans first second := ⟨second.1, first.2.trans second.2⟩
  holds leads := leads.1
  shows_plain := by
    intro value notArray notObject has
    cases value with
    | array ref => exact absurd rfl (notArray ref)
    | object ref => exact absurd rfl (notObject ref)
    | _ => exact has.elim
  shows_stored holds shown stores := holds.stored _ _ shown stores
  shows_variable := by
    intro world scope name value holds admitted found
    rcases admitted with ⟨inner, frames, -, shownInner⟩
    rcases List.exists_of_findSome?_eq_some found with ⟨frame, member, stored⟩
    have stores := Record.stores_of_get? stored
    rw [frames, List.mem_append] at member
    rcases member with isInner | isCaptured
    · exact holds.stored (.object frame) value (shownInner frame isInner) stores
    · exact holds.framed frame isCaptured value stores
  shows_recalled recalls := nomatch recalls
  admits_push := by
    intro scope frame admitted shown
    rcases admitted with ⟨inner, frames, isInner, shownInner⟩
    refine ⟨frame :: inner, ?_, List.mem_cons_of_mem _ isInner,
      List.forall_mem_cons.mpr ⟨shown, shownInner⟩⟩
    rw [List.cons_append, ← frames]
    rfl
  newArray holds _ shown :=
    ⟨holds.grown (.newArray _ _) fun _ part stores =>
        (Heap.stores_newArray stores).imp_right (shown part),
      fun inside => absurd inside (Nat.not_lt.mpr holds.arrays)⟩
  newObject holds shown :=
    ⟨holds.grown (.newObject _ _) fun _ part stores =>
        (Heap.stores_newObject stores).imp_right (shown part),
      fun inside => absurd inside (Nat.not_lt.mpr (Nat.le_of_lt holds.objects))⟩
  newFunction holds _ :=
    holds.grown (.newFunction _ _) fun _ _ stores => .inl (Heap.stores_newFunction stores)
  newRegExp _ holds :=
    holds.grown (.newRegExp _ _) fun _ _ stores => .inl (Heap.stores_newRegExp stores)
  setProperty _ holds shownObject shown run := holds.setProperty shownObject shown run
  assign name mayWrite holds admitted shown := by
    cases ready mayWrite
    exact holds.assign admitted name shown
  remember _ _ _ leads _ :=
    ⟨⟨leads.1.arrays, leads.1.objects, leads.1.stored, leads.1.framed, leads.1.bound⟩,
      leads.2.captured, leads.2.frame⟩

/-! ## The call -/

namespace Holds

theorem begun (invocation : Invocation) (world : World) :
    invocation.Holds [] { world with heap := (invocation.start.newObject {}).2 } := by
  have grows : invocation.start.Extends (invocation.start.newObject {}).2 := .newObject _ _
  have old : ∀ value part, (invocation.start.newObject {}).2.Stores value part →
      invocation.start.Stores value part := fun _ _ stores =>
    (Heap.stores_newObject stores).resolve_right Record.not_stores_empty
  constructor
  · exact grows.arrays_size_le
  · exact Nat.lt_of_lt_of_eq (Nat.lt_succ_self _) (Array.size_push _).symm
  · intro value part shown stores
    have stored := old value part stores
    exact fun _ => .part (shown stored.has) stored
  · intro frame member part stores
    rw [grows.object (invocation.secluded.inside frame member)] at stores
    exact fun _ => .bound member stores
  · exact nofun

theorem mono {fewer : List String} (holds : invocation.Holds bound world) (subset : fewer ⊆ bound) :
    invocation.Holds fewer world :=
  ⟨holds.arrays, holds.objects, holds.stored, holds.framed,
    fun name isBound => holds.bound name (subset isBound)⟩

/-- Parameters are defined in the frame of the call. -/
theorem defineAll (holds : invocation.Holds bound world) {scope : Scope}
    (own : scope.inner = invocation.frame) {entries : List (String × Value)}
    (shown : ∀ entry ∈ entries, invocation.Shows entry.2) :
    invocation.Holds (bound ++ entries.map (·.1))
        { world with heap := world.heap.defineAll scope entries } ∧
      invocation.Keeps world { world with heap := world.heap.defineAll scope entries } := by
  induction entries generalizing world bound with
  | nil => exact ⟨holds.mono (by simp), .refl world⟩
  | cons entry entries induction =>
      rcases entry with ⟨name, value⟩
      rcases List.forall_mem_cons.mp shown with ⟨here, later⟩
      have written : invocation.Holds bound
            { world with heap := world.heap.setVariable invocation.frame name value } ∧
          invocation.Keeps world
            { world with heap := world.heap.setVariable invocation.frame name value } :=
        holds.setVariable (fun isFrame => absurd isFrame (not_captured shows_frame))
          (.inl shows_frame) here
      have inside : invocation.frame.index < world.heap.objects.size := holds.objects
      have has : ((world.heap.setVariable invocation.frame name value).object
          invocation.frame).has name = true := by
        rw [Record.has, Heap.get?_setVariable inside, if_pos ⟨rfl, rfl⟩]
        rfl
      have next : invocation.Holds (bound ++ [name])
          { world with heap := world.heap.define scope name value } := by
        rw [Heap.define, own]
        refine { written.1 with bound := ?_ }
        exact List.forall_mem_append.mpr ⟨written.1.bound, List.forall_mem_singleton.mpr has⟩
      have rest := induction next later
      rw [List.append_assoc] at rest
      refine ⟨rest.1, Keeps.trans ?_ rest.2⟩
      rw [Heap.define, own]
      exact written.2

end Holds

variable {context : Context}

/-- Parameters and body are evaluated behind the frame of the call, without remembered results. -/
theorem context_abides (scope : context.scope = invocation.captured.push invocation.frame)
    (unused : context.useMemo = false) {mayWrite : Prop}
    (ready : mayWrite → bound = invocation.names) :
    context.Abides (invocation.discipline bound mayWrite ready) where
  scope := by
    rw [scope]
    exact ⟨[invocation.frame], rfl, List.mem_singleton_self _,
      List.forall_mem_singleton.mpr shows_frame⟩
  tree := trivial
  recalls := unused
  call := False.elim

end Invocation

namespace Eval

open Invocation

theorem bindParam_binds (context : Context) (path : Path) (index : Nat) (args : List Value)
    (param : Pattern) (before : World) :
    Ensures (bindParam context path index args param) before fun record _ =>
      param.names ⊆ record.keys := by
  have bound : ∀ path value pattern before, Ensures (bind context path {} value pattern) before
      fun record _ => pattern.names ⊆ record.keys := by
    intro path value pattern before record after run name member
    rw [bind_keys context path {} value pattern before record after run]
    simpa [Record.keys] using member
  cases param with
  | rest loc argument =>
      rw [bindParam]
      exact Ensures.bindAny fun array middle => bound _ array argument middle
  | _ =>
      rw [bindParam]
      · exact bound _ _ _ _
      · simp

theorem bindParams_keeps {invocation : Invocation} {context : Context}
    (scope : context.scope = invocation.captured.push invocation.frame)
    (unused : context.useMemo = false) (path : Path) (params : List Pattern)
    (allowed : ∀ param ∈ params, param.Allowed { write := False, call := False }) (index : Nat)
    {args : List Value} (shown : ∀ argument ∈ args, invocation.Shows argument)
    {bound : List String} {before : World} (holds : invocation.Holds bound before) :
    match bindParams context path index args params before with
    | .ok _ after =>
      invocation.Holds (bound ++ params.flatMap Pattern.names) after ∧
        invocation.Keeps before after
    | .error _ after => invocation.Keeps before after := by
  induction params generalizing index args bound before with
  | nil =>
      exact ⟨holds.mono (by simp), .refl before⟩
  | cons param params induction =>
      rcases List.forall_mem_cons.mp allowed with ⟨allowedHere, allowedLater⟩
      have ready : context.Abides (invocation.discipline bound False False.elim) :=
        context_abides scope unused False.elim
      have binding := bindParam_obeys ready path index shown param allowedHere before holds
      have binds := bindParam_binds context path index args param before
      rw [bindParams_cons]
      cases run : bindParam context path index args param before with
      | error failure middle =>
          rw [run] at binding
          rw [bind_failed run]
          exact binding.2
      | ok bindings middle =>
          rw [run] at binding
          rcases binding with ⟨⟨holdsMiddle, keepsMiddle⟩, shownBindings⟩
          have own : context.scope.inner = invocation.frame := by
            rw [scope]
            rfl
          have shownEntries : ∀ entry ∈ bindings.entries, invocation.Shows entry.2 :=
            fun entry member => shownBindings entry.2 ⟨entry.1, member⟩
          have defined := holdsMiddle.defineAll own shownEntries
          have named : bound ++ param.names ⊆ bound ++ bindings.entries.map (·.1) :=
            List.append_subset.mpr ⟨List.subset_append_left _ _,
              List.subset_append_of_subset_right _ (binds bindings middle run)⟩
          have rest := induction allowedLater (index + 1)
            (fun argument member => shown argument (List.mem_of_mem_tail member))
            (defined.1.mono named)
          have keeps := keepsMiddle.trans defined.2
          rw [bind_run run]
          change match bindParams context path (index + 1) args.tail params
            { middle with heap := middle.heap.defineAll context.scope bindings.entries } with
            | .ok _ after => _
            | .error _ after => _
          split at rest
          · rw [List.flatMap_cons, ← List.append_assoc]
            exact ⟨rest.1, keeps.trans rest.2⟩
          · exact keeps.trans rest

/-- A call without further calls leaves every parameter in the captured frames as it was, whether
it has a value or fails. The body may assign, and may hand on what it likes; the defaults and
computed keys of the parameters may not. -/
theorem callFunction_keeps_captured (host : Host) (depth : Nat) (ref : FunctionRef) (this : Value)
    (args : List Value) (world : World) {closure : Closure}
    (isArrow : (world.heap.function ref).body = .arrow closure)
    (params : ∀ param ∈ closure.params, param.Allowed { write := False, call := False })
    (body : closure.body.Allowed { write := True, call := False })
    (secluded : world.heap.Secludes closure.scope args) :
    ∀ frame ∈ closure.scope.frames, ∀ name ∈ closure.params.flatMap Pattern.names,
      ((worldAfter (callFunction host depth ref this args world)).heap.object frame).get? name =
        (world.heap.object frame).get? name := by
  cases depth with
  | zero => exact fun _ _ _ _ => rfl
  | succ depth =>
      let invocation : Invocation :=
        { start := world.heap, captured := closure.scope, args
          names := closure.params.flatMap Pattern.names, secluded }
      let context : Context :=
        { call := callFunction host depth, scope := closure.scope.push invocation.frame
          useMemo := false, tree := closure.tree }
      let begun : World := { world with heap := (world.heap.newObject {}).2 }
      have run : callFunction host (depth + 1) ref this args world = (do
          bindParams context closure.path 0 args closure.params
          valueOf (eval context .value (.body :: closure.path) closure.body)) begun := by
        have looked : inspect (fun heap => heap.function ref) world =
            .ok (world.heap.function ref) world := rfl
        rw [callFunction, bind_run looked, isArrow]
        rfl
      have scope : context.scope = invocation.captured.push invocation.frame := rfl
      have bound := bindParams_keeps scope rfl closure.path closure.params params 0
        (fun _ => shows_arg) (Holds.begun invocation world)
      have keeps : invocation.Keeps begun
          (worldAfter (callFunction host (depth + 1) ref this args world)) := by
        rw [run]
        cases binds : bindParams context closure.path 0 args closure.params begun with
        | error failure after =>
            rw [binds] at bound
            rwa [bind_failed binds]
        | ok result middle =>
            rw [binds] at bound
            rw [bind_run binds]
            have ready :
                context.Abides (invocation.discipline invocation.names True fun _ => rfl) :=
              context_abides rfl rfl fun _ => rfl
            have evaluated :=
              eval_obeys context ready .value (.body :: closure.path) closure.body body
            exact bound.2.trans (evaluated.valueOf.leads bound.1).2
      intro frame member name isName
      have inside := secluded.inside frame member
      have same : begun.heap.object frame = world.heap.object frame :=
        (Heap.Extends.newObject world.heap {}).object inside
      rw [keeps.captured frame member name isName, same]

/-- The function `(a, {b = a}) => ([a, b, c] = [b, c, a])` behind the first object. -/
def rotation : Closure :=
  let a : Ident := { name := "a" }
  let b : Ident := { name := "b" }
  let c : Ident := { name := "c" }
  { tree := 0
    path := []
    params :=
      [.ident a, .object {} [.field {} (.name b) (.withDefault {} (.ident b) (.ident a)) true]]
    body := .paren {} (.destructure {} .plain
      (.array {} [some (.ident a), some (.ident b), some (.ident c)])
      (.array {} [some (.ident b), some (.ident c), some (.ident a)]))
    scope := { inner := ⟨0⟩ } }

/-- The captured frame has `a` and `c`. -/
def rotationWorld : World :=
  { heap :=
      { objects :=
          #[.ofEntries [("a", .string "x"), ("c", .string "y")], .ofEntries [("b", .string "z")]]
        functions := #[{ name := "", constructible := false, body := .arrow rotation }] } }

def rotationArgs : List Value := [.string "w", .object ⟨1⟩]

/-- The call assigns `a` and `b` in its own frame, and `c` in the captured one. -/
theorem callFunction_keeps_captured_rotated :
    (rotationWorld.heap.function ⟨0⟩).body = .arrow rotation ∧
      (∀ param ∈ rotation.params, param.Allowed { write := False, call := False }) ∧
      rotation.body.Allowed { write := True, call := False } ∧
      rotationWorld.heap.Secludes rotation.scope rotationArgs ∧
      ((worldAfter (callFunction Library.host 1 ⟨0⟩ .undefined rotationArgs
        rotationWorld)).heap.object ⟨0⟩).get? "c" = some (.string "w") ∧
      ∀ frame ∈ rotation.scope.frames, ∀ name ∈ rotation.params.flatMap Pattern.names,
        ((worldAfter (callFunction Library.host 1 ⟨0⟩ .undefined rotationArgs
          rotationWorld)).heap.object frame).get? name =
            (rotationWorld.heap.object frame).get? name := by
  have isArrow : (rotationWorld.heap.function ⟨0⟩).body = .arrow rotation := rfl
  have allowed : ∀ param ∈ rotation.params, param.Allowed { write := False, call := False } := by
    refine List.forall_mem_cons.mpr ⟨trivial, List.forall_mem_singleton.mpr ?_⟩
    exact ⟨⟨trivial, trivial, trivial⟩, trivial⟩
  have allowedBody : rotation.body.Allowed { write := True, call := False } :=
    ⟨trivial, ⟨trivial, trivial, trivial, trivial⟩, trivial, trivial, trivial, trivial⟩
  have found : ∀ value, rotationWorld.heap.Finds rotation.scope rotationArgs value →
      (∃ text, value = .string text) ∨ value = .object ⟨1⟩ := by
    intro value finds
    induction finds with
    | argument member => exact (List.mem_pair.mp member).imp_left fun same => ⟨"w", same⟩
    | bound member stores =>
        cases List.mem_singleton.mp member
        rcases stores with ⟨name, entry⟩
        rcases List.mem_pair.mp entry with same | same
        · exact .inl ⟨"x", congrArg Prod.snd same⟩
        · exact .inl ⟨"y", congrArg Prod.snd same⟩
    | part _ stores found =>
        rcases found with ⟨text, rfl⟩ | rfl
        · exact stores.elim
        · rcases stores with ⟨name, entry⟩
          exact .inl ⟨"z", congrArg Prod.snd (List.mem_singleton.mp entry)⟩
  have secluded : rotationWorld.heap.Secludes rotation.scope rotationArgs := by
    constructor
    · exact List.forall_mem_singleton.mpr Nat.zero_lt_two
    · intro frame member finds
      cases List.mem_singleton.mp member
      rcases found _ finds with ⟨_, same⟩ | same <;> cases same
  exact ⟨isArrow, allowed, allowedBody, secluded, rfl,
    callFunction_keeps_captured Library.host 1 ⟨0⟩ .undefined rotationArgs rotationWorld isArrow
      allowed allowedBody secluded⟩

end Eval

end ExprScript
