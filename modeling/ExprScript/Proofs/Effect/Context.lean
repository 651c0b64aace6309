import ExprScript.Proofs.Effect.Compliance

/-! # Contexts that comply with a policy

The steps of evaluation that depend on the context: variables, remembered results
and calls. What evaluation passes on (outcomes, references, records of bindings) is
trusted in the same sense as values.
-/

namespace ExprScript

/-! ## What evaluation passes on -/

namespace World

variable {policy : Policy} {tree : Nat} {before after : World}

def TrustsOutcome (policy : Policy) (world : World) (outcome : Outcome) : Prop :=
  ∀ this value, outcome = some (this, value) →
    world.Trusts policy this ∧ world.Trusts policy value

def TrustsRecord (policy : Policy) (world : World) (record : Record) : Prop :=
  ∀ value, record.Stores value → world.Trusts policy value

def TrustsReference (policy : Policy) (world : World) : Reference → Prop
  | .name id => ∀ cause : Cause, cause.kind ≠ .syntaxError →
      policy.error { cause, position := id.loc.start }
  | .property object _ position => world.Trusts policy object ∧
      ∀ cause : Cause, cause.kind ≠ .syntaxError → policy.error { cause, position }

theorem trustsOutcome_none (world : World) : world.TrustsOutcome policy none := nofun

theorem trustsOutcome_some {world : World} {this value : Value} (trusted : world.Trusts policy this)
    (trusted' : world.Trusts policy value) : world.TrustsOutcome policy (some (this, value)) := by
  intro this' value' equal
  cases equal
  exact ⟨trusted, trusted'⟩

theorem trustsOutcome_plain {world : World} {value : Value} (trusted : world.Trusts policy value) :
    world.TrustsOutcome policy (Eval.plain value) :=
  trustsOutcome_some (Heap.trusted_primitive rfl) trusted

theorem trustsRecord_empty (world : World) : world.TrustsRecord policy {} :=
  fun _ stores => (Record.not_stores_empty stores).elim

theorem TrustsRecord.set {world : World} {record : Record} {value : Value}
    (trusted : world.TrustsRecord policy record) (key : String)
    (trusted' : world.Trusts policy value) : world.TrustsRecord policy (record.set key value) := by
  intro part stores
  rcases Record.stores_set stores with old | rfl
  · exact trusted part old
  · exact trusted'

theorem TrustsRecord.setAll {world : World} {record : Record} {entries : List (String × Value)}
    (trusted : world.TrustsRecord policy record)
    (trusted' : ∀ name value, (name, value) ∈ entries → world.Trusts policy value) :
    world.TrustsRecord policy (record.setAll entries) := by
  intro part stores
  rcases Record.stores_setAll stores with old | ⟨name, new⟩
  · exact trusted part old
  · exact trusted' name part new

theorem Leads.trustsRecord (leads : before.Leads policy tree after) {record : Record}
    (trusted : before.TrustsRecord policy record) : after.TrustsRecord policy record :=
  fun value stores => leads.trusts (trusted value stores)

theorem Leads.trustsReference (leads : before.Leads policy tree after) {reference : Reference}
    (trusted : before.TrustsReference policy reference) :
    after.TrustsReference policy reference := by
  cases reference with
  | name id => exact trusted
  | property object key position => exact ⟨leads.trusts trusted.1, trusted.2⟩

theorem Leads.trustsAll (leads : before.Leads policy tree after) {values : List Value}
    (trusted : ∀ value ∈ values, before.Trusts policy value) :
    ∀ value ∈ values, after.Trusts policy value :=
  fun value member => leads.trusts (trusted value member)

end World

/-! ## Contexts -/

/-- Calls comply, from whatever world they start. -/
def Caller.Obeys (policy : Policy) (tree : Nat) (call : Caller) : Prop :=
  ∀ ref this args world, world.Trusts policy (.function ref) → world.Trusts policy this →
    (∀ argument ∈ args, world.Trusts policy argument) →
    Complies policy tree policy.raw (call ref this args) world
      fun value after => after.Trusts policy value

/-- What evaluation finds in its context: the variables are trusted, and so are the
remembered results if they are used. -/
structure Context.Obeys (policy : Policy) (tree : Nat) (context : Context) (world : World) :
    Prop where
  frames : ∀ frame ∈ context.scope.frames, world.Trusts policy (.object frame)
  memo : context.useMemo = true → context.tree = tree ∧ world.Recalls policy tree
  call : context.call.Obeys policy tree

theorem Context.Obeys.leads {policy : Policy} {tree : Nat} {context : Context}
    {before after : World} (obeys : context.Obeys policy tree before)
    (leads : before.Leads policy tree after) : context.Obeys policy tree after where
  frames := fun frame member => leads.trusts (obeys.frames frame member)
  memo := fun uses => ⟨(obeys.memo uses).1, leads.recalls (obeys.memo uses).2⟩
  call := obeys.call

namespace Complies

variable {policy : Policy} {tree : Nat} {errors : Error → Prop} {α : Type} {before : World}
  {context : Context}

theorem plain {action : Eval Value}
    (complies : Complies policy tree errors action before fun value after =>
      after.Trusts policy value) :
    Complies policy tree errors (do return Eval.plain (← action)) before
      fun outcome after => after.TrustsOutcome policy outcome :=
  complies.andThen fun _ _ _ trusted => World.trustsOutcome_plain trusted

/-- A remembered result is trusted, and a new one stays trusted. -/
theorem memoized (obeys : context.Obeys policy tree before) (path : Path) {action : Eval Value}
    (complies : Complies policy tree errors action before fun value after =>
      after.Trusts policy value) :
    Complies policy tree errors (Eval.memoized context path action) before
      fun value after => after.Trusts policy value := by
  have anew : Complies policy tree errors
      (action >>= fun value => do
        modify fun world : World =>
          { world with memo := world.memo.set ⟨context.tree, path⟩ value }
        Pure.pure value) before fun value after => after.Trusts policy value :=
    complies.bind fun _ middle _ trusted => ⟨.remember middle _ trusted, trusted⟩
  unfold Complies at anew ⊢
  cases found : (if context.useMemo then before.memo.get? ⟨context.tree, path⟩ else none) with
  | none =>
      simpa only [Eval.memoized, Bind.bind, EStateM.bind, MonadState.get, getThe,
        MonadStateOf.get, EStateM.get, found] using anew
  | some value =>
      have run : Eval.memoized context path action before = .ok value before := by
        simp only [Eval.memoized, Bind.bind, EStateM.bind, MonadState.get, getThe,
          MonadStateOf.get, EStateM.get, found]
        rfl
      rw [run]
      split at found
      · next uses =>
          have recalled := obeys.memo uses
          rw [recalled.1] at found
          exact ⟨.refl before, recalled.2 path value found⟩
      · cases found

theorem readName (obeys : context.Obeys policy tree before) {id : Ident}
    (allowed : ∀ cause : Cause, cause.kind ≠ .syntaxError →
      errors { cause, position := id.loc.start }) :
    Complies policy tree errors (Eval.readName context id) before
      fun value after => after.Trusts policy value := by
  refine inspect ?_
  split
  · next value found => exact pure (Heap.trusted_lookup? obeys.frames found)
  · split
    · exact pure (Heap.trusted_primitive rfl)
    · exact raise (allowed _ nofun)

theorem readReference (obeys : context.Obeys policy tree before) {reference : Reference}
    (trusted : before.TrustsReference policy reference) :
    Complies policy tree policy.error (Eval.readReference context reference) before
      fun value after => after.Trusts policy value := by
  cases reference with
  | name id => exact readName obeys trusted
  | property object key position => exact readProperty trusted.2 key trusted.1

theorem writeReference (context : Context) {reference : Reference} {value : Value}
    (trusted : before.TrustsReference policy reference) (trusted' : before.Trusts policy value) :
    Complies policy tree policy.error (Eval.writeReference context reference value) before
      fun _ _ => True := by
  cases reference with
  | name id => exact ⟨.of_heap (Heap.evolves_setVariable trusted') rfl, trivial⟩
  | property object key position => exact writeProperty trusted.2 object key trusted'

section Call

variable {position : Position}
  (allowed : ∀ failure, policy.raw failure → policy.error (failure.anchoredAt position))

include allowed

theorem callValue (obeys : context.Obeys policy tree before) (callee : Expr)
    {function this : Value} {args : List Value} (trusted : before.Trusts policy function)
    (trustedThis : before.Trusts policy this)
    (trustedArgs : ∀ argument ∈ args, before.Trusts policy argument) :
    Complies policy tree policy.error
      (Eval.callValue context position callee function this args) before
      fun value after => after.Trusts policy value := by
  have blamed : ∀ cause : Cause, cause.kind ≠ .syntaxError → policy.error { cause, position } :=
    fun cause notSyntax => allowed _ (policy.unplaced cause notSyntax)
  unfold Eval.callValue
  split
  · exact anchored (obeys.call _ _ _ _ trusted trustedThis trustedArgs) allowed
  · exact raise (blamed _ nofun)
  · exact raise (blamed _ nofun)

theorem constructValue (obeys : context.Obeys policy tree before) (callee : Expr)
    {function : Value} {args : List Value} (trusted : before.Trusts policy function)
    (trustedArgs : ∀ argument ∈ args, before.Trusts policy argument) :
    Complies policy tree policy.error
      (Eval.constructValue context position callee function args) before
      fun value after => after.Trusts policy value := by
  have blamed : ∀ cause : Cause, cause.kind ≠ .syntaxError → policy.error { cause, position } :=
    fun cause notSyntax => allowed _ (policy.unplaced cause notSyntax)
  unfold Eval.constructValue
  split
  · next ref =>
      refine inspect ?_
      split
      · have fresh : ∀ value, ({ constructor? := some ref } : Record).Stores value →
            before.Trusts policy value := by
          intro value stores
          rcases stores with ⟨_, member⟩
          cases member
        refine bind (newObject fresh) fun this middle leads trustedThis => ?_
        have called := obeys.call ref this args middle (leads.trusts trusted) trustedThis
          (leads.trustsAll trustedArgs)
        refine (anchored called allowed).andThen fun result after leads' trustedResult => ?_
        split
        · exact trustedResult
        · exact leads'.trusts trustedThis
      · exact raise (blamed _ (by rintro ⟨⟩))
  · exact raise (blamed _ (by rintro ⟨⟩))
  · exact raise (blamed _ (by rintro ⟨⟩))

end Call

theorem createFunction (obeys : context.Obeys policy tree before) (path : Path)
    {params : List Pattern} {body : Expr}
    (accepts : (∀ param ∈ params, policy.AcceptsPattern param) ∧ policy.Accepts body) :
    Complies policy tree errors (Eval.createFunction context path params body) before
      fun value after => after.Trusts policy value := by
  let function : FunctionValue :=
    { name := "", constructible := false
      body := .arrow { tree := context.tree, path, params, body, scope := context.scope } }
  have isGood : policy.Function function := by
    intro closure equal
    cases equal
    exact accepts
  have trusted : ∀ closure, function.body = .arrow closure → ∀ frame ∈ closure.scope.frames,
      before.heap.Trusted policy.Function (.object frame) := by
    intro closure equal
    cases equal
    exact obeys.frames
  have allocates : Complies policy tree errors
      (Eval.allocate fun heap => heap.newFunction function) before
      fun ref after => after.Trusts policy (.function ref) :=
    allocate (.single (.newFunction function isGood trusted))
      (Heap.trusted_newFunction isGood trusted)
  exact allocates.andThen fun _ _ _ result => result

/-- Variables get their values one after the other. -/
theorem assignAll {write : Heap → String × Value → Heap} {bindings : Record}
    (single : ∀ heap entry, heap.Trusted policy.Function entry.2 →
      Heap.Evolves policy.Function heap (write heap entry))
    (trusted : before.TrustsRecord policy bindings) :
    Complies policy tree errors (Eval.modifyHeap fun heap => bindings.entries.foldl write heap)
      before fun _ _ => True :=
  ⟨.of_heap (Heap.evolves_foldl write single bindings.entries
    fun entry member => trusted entry.2 ⟨entry.1, member⟩) rfl, trivial⟩

/-- A new frame of variables. -/
theorem newChild {scope : Scope} {record : Record}
    (frames : ∀ frame ∈ scope.frames, before.Trusts policy (.object frame))
    (trusted : before.TrustsRecord policy record) :
    Complies policy tree errors (Eval.allocate fun heap => heap.newChild scope record) before
      fun scope after => ∀ frame ∈ scope.frames, after.Trusts policy (.object frame) := by
  have step : before.heap.Step policy.Function (before.heap.newObject record).2 :=
    .newObject record trusted
  refine allocate (.single step) fun frame member => ?_
  rcases List.mem_cons.mp member with rfl | old
  · exact Heap.trusted_newObject trusted
  · exact step.trusted (frames frame old)

/-- Names that a pattern has bound so far become visible. -/
theorem inPattern (obeys : context.Obeys policy tree before) {bindings : Record}
    (trusted : before.TrustsRecord policy bindings) {next : Context → Eval α}
    {post : α → World → Prop}
    (rest : ∀ scope middle, before.Leads policy tree middle →
      Context.Obeys policy tree { context with scope } middle →
      Complies policy tree errors (next { context with scope }) middle post) :
    Complies policy tree errors (Eval.patternContext context bindings >>= next) before post := by
  simp only [Eval.patternContext, bind_assoc, pure_bind]
  refine bind (newChild obeys.frames trusted) fun scope middle leads frames => ?_
  exact rest scope middle leads ⟨frames, (obeys.leads leads).memo, obeys.call⟩

end Complies

end ExprScript
