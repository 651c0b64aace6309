import ExprScript.Eval.Library
import ExprScript.Proofs.Effect.Evaluation

/-! # Calls comply with a policy

A call of an arrow function evaluates accepted code in a trusted scope, and a
function of the host is taken to comply if the calls that it makes do. So calls
comply however deep they are nested, and with them the evaluation of a tree.
-/

namespace ExprScript

/-- Every function of the host changes the heap by steps, raises errors that the
policy allows and returns trusted values, provided that it gets such values and a
way to call back that does the same. -/
def Host.Obeys (policy : Policy) (tree : Nat) (host : Host) : Prop :=
  ∀ key function, host key = some function → ∀ call : Caller, call.Obeys policy tree →
    ∀ this args (world : World), world.Trusts policy this →
      (∀ argument ∈ args, world.Trusts policy argument) →
      Complies policy tree policy.raw (function call this args) world
        fun value after => after.Trusts policy value

namespace Eval

variable {policy : Policy} {tree : Nat} {host : Host}

theorem bindParams_complies (context : Context) (path : Path) (params : List Pattern)
    (accepts : ∀ param ∈ params, policy.AcceptsPattern param) (index : Nat) (args : List Value)
    (before : World) (obeys : context.Obeys policy tree before)
    (trusted : ∀ argument ∈ args, before.Trusts policy argument) :
    Complies policy tree policy.error (bindParams context path index args params) before
      fun _ _ => True := by
  induction params generalizing index args before with
  | nil => exact Complies.pure trivial
  | cons param params induction =>
      rcases List.forall_mem_cons.mp accepts with ⟨here, later⟩
      have head : before.Trusts policy (args.head?.getD .undefined) := by
        cases args with
        | nil => exact Heap.trusted_primitive rfl
        | cons argument args => exact trusted argument List.mem_cons_self
      -- A parameter takes its value apart, and the others follow.
      have binds : ∀ (target : Pattern) (targetPath : Path) (value : Value) (middle : World),
          policy.AcceptsPattern target → before.Leads policy tree middle →
          middle.Trusts policy value →
          Complies policy tree policy.error (do
            let bindings ← bind context targetPath {} value target
            modifyHeap fun heap => bindings.entries.foldl
              (fun heap entry => heap.define context.scope entry.1 entry.2) heap
            bindParams context path (index + 1) args.tail params) middle fun _ _ => True := by
        intro target targetPath value middle accepts leads trustedValue
        refine (bind_complies context targetPath middle (obeys.leads leads) {} value target
          (World.trustsRecord_empty _) trustedValue accepts).bind
          fun bindings bound leads' trustedBindings => ?_
        refine (Complies.assignAll (fun _ _ isTrusted => Heap.evolves_setVariable isTrusted)
          trustedBindings).bind fun _ defined leads'' _ => ?_
        have whole := (leads.trans leads').trans leads''
        exact induction later (index + 1) args.tail defined (obeys.leads whole)
          (whole.trustsAll fun argument member => trusted argument (List.mem_of_mem_tail member))
      cases param with
      | rest loc argument =>
          rw [bindParams]
          refine (Complies.newArray trusted).bind fun array middle leads trustedArray => ?_
          rw [pure_bind]
          exact binds argument _ array middle here.rest leads trustedArray
      | _ =>
          rw [bindParams, pure_bind]
          · exact binds _ _ _ before here (.refl before) head
          · simp

theorem callClosure_complies {call : Caller} (calls : call.Obeys policy tree) (closure : Closure)
    (args : List Value) (before : World)
    (accepts : (∀ param ∈ closure.params, policy.AcceptsPattern param) ∧
      policy.Accepts closure.body)
    (frames : ∀ frame ∈ closure.scope.frames, before.Trusts policy (.object frame))
    (trusted : ∀ argument ∈ args, before.Trusts policy argument) :
    Complies policy tree policy.error (callClosure call closure args) before
      fun value after => after.Trusts policy value := by
  refine (Complies.newChild frames (World.trustsRecord_empty _)).bind
    fun scope middle leads frames' => ?_
  have obeys : Context.Obeys policy tree
      { call, scope, useMemo := false, tree := closure.tree } middle :=
    ⟨frames', nofun, calls⟩
  refine (bindParams_complies _ closure.path closure.params accepts.1 0 args middle obeys
    (leads.trustsAll trusted)).bind fun _ bound leads' _ => ?_
  exact (eval_complies _ .value (.body :: closure.path) bound (obeys.leads leads') closure.body
    accepts.2).valueOf

theorem callFunction_obeys (hostObeys : host.Obeys policy tree) (depth : Nat) :
    Caller.Obeys policy tree (callFunction host depth) := by
  induction depth with
  | zero => exact fun _ _ _ world _ _ _ => ⟨.refl world, nofun⟩
  | succ depth induction =>
      intro ref this args world trusted trustedThis trustedArgs
      refine Complies.inspect ?_
      split
      · next closure isArrow =>
          have frames : ∀ frame ∈ closure.scope.frames, world.Trusts policy (.object frame) :=
            fun frame member => trusted.holds ⟨closure, isArrow, frame, member, rfl⟩
          exact (callClosure_complies induction closure args world
            (trusted.function closure isArrow) frames trustedArgs).weaken fun _ => policy.passed
      · next key _ =>
          split
          · next function found =>
              exact hostObeys key function found _ induction this args world trustedThis trustedArgs
          · exact Complies.raise (policy.unplaced _ nofun)

theorem rootContext_obeys (hostObeys : host.Obeys policy tree) {scope : Scope} {useMemo : Bool}
    {world : World} (frames : ∀ frame ∈ scope.frames, world.Trusts policy (.object frame))
    (recalls : useMemo = true → world.Recalls policy tree) :
    (rootContext host scope useMemo tree).Obeys policy tree world :=
  ⟨frames, fun uses => ⟨rfl, recalls uses⟩, callFunction_obeys hostObeys callDepth⟩

theorem evaluate_complies (hostObeys : host.Obeys policy tree) {expr : Expr}
    (accepts : policy.Accepts expr) {scope : Scope} {useMemo : Bool} {world : World}
    (frames : ∀ frame ∈ scope.frames, world.Trusts policy (.object frame))
    (recalls : useMemo = true → world.Recalls policy tree) :
    Complies policy tree policy.error (evaluate host tree expr scope useMemo) world
      fun value after => after.Trusts policy value :=
  (eval_complies _ .value [] world (rootContext_obeys hostObeys frames recalls) expr
    accepts).valueOf

end Eval

/-! ## The library -/

namespace Library

variable {policy : Policy} {tree : Nat} {call : Caller} {before : World}

theorem trusts_arg {args : List Value} (trusted : ∀ argument ∈ args, before.Trusts policy argument)
    (index : Nat) : before.Trusts policy (arg args index) := by
  unfold arg
  cases found : args[index]? with
  | none => exact Heap.trusted_primitive rfl
  | some value => exact trusted value (List.mem_of_getElem? found)

private theorem callAny_complies (calls : call.Obeys policy tree) {function this : Value}
    {args : List Value} (trusted : before.Trusts policy function)
    (trustedThis : before.Trusts policy this)
    (trustedArgs : ∀ argument ∈ args, before.Trusts policy argument) :
    Complies policy tree policy.raw (Eval.callAny call function this args) before
      fun value after => after.Trusts policy value := by
  unfold Eval.callAny
  split
  · exact calls _ _ _ _ trusted trustedThis trustedArgs
  · exact Complies.raise (policy.unplaced _ nofun)

private theorem mapItems_complies (calls : call.Obeys policy tree) (function : Value)
    (index : Nat) (items : List Value) (before : World) (trusted : before.Trusts policy function)
    (trustedItems : ∀ item ∈ items, before.Trusts policy item) :
    Complies policy tree policy.raw (mapItems call function index items) before
      fun values after => ∀ value ∈ values, after.Trusts policy value := by
  induction items generalizing index before with
  | nil => exact Complies.pure (List.forall_mem_nil _)
  | cons item items induction =>
      rcases List.forall_mem_cons.mp trustedItems with ⟨here, later⟩
      have trustedArgs : ∀ argument ∈ [item, .number (Float.ofNat index)],
          before.Trusts policy argument := by
        intro argument member
        rcases List.mem_cons.mp member with rfl | isIndex
        · exact here
        · rw [List.mem_singleton.mp isIndex]
          exact Heap.trusted_primitive rfl
      refine (callAny_complies calls trusted (Heap.trusted_primitive rfl) trustedArgs).bind
        fun value middle leads trustedValue => ?_
      exact (induction (index + 1) middle (leads.trusts trusted)
        (leads.trustsAll later)).andThen fun _ _ leads' others =>
          List.forall_mem_cons.mpr ⟨leads'.trusts trustedValue, others⟩

private theorem failWith_complies (kind : ErrorKind) (notSyntax : kind ≠ .syntaxError)
    (fallback : String) (this : Value) (args : List Value) :
    Complies policy tree policy.raw (failWith kind fallback call this args) before
      fun value after => after.Trusts policy value := by
  have text : Complies policy tree policy.raw (textArgument fallback args) before
      fun _ _ => True := by
    cases args with
    | nil => exact Complies.pure trivial
    | cons value values => exact Complies.inspected trivial
  exact text.bind fun _ _ _ _ => Complies.raise (policy.unplaced _ notSyntax)

theorem host_obeys (policy : Policy) (tree : Nat) : Host.Obeys policy tree Library.host := by
  intro key function found call calls this args world trustedThis trustedArgs
  have trustedArg := trusts_arg trustedArgs
  have dropped : ∀ count, ∀ argument ∈ args.drop count, world.Trusts policy argument :=
    fun _ argument member => trustedArgs argument (List.mem_of_mem_drop member)
  have allowed : ∀ cause : Cause, cause.kind ≠ .syntaxError →
      policy.raw { cause, position := {} } := policy.unplaced
  unfold Library.host at found
  split at found <;> cases found
  · exact Complies.heap (Complies.pure (Heap.trusted_primitive rfl))
  · exact Complies.pure (trustedArg 0)
  · exact Complies.newArray trustedArgs
  · exact Complies.pure trustedThis
  · exact ⟨.of_heap .refl rfl, trustedArg 0⟩
  · exact failWith_complies .typeError nofun _ _ _
  · exact failWith_complies .rangeError nofun _ _ _
  · refine (Complies.writeProperty allowed this "x" (trustedArg 0)).bind fun _ _ leads _ => ?_
    exact (Complies.writeProperty allowed this "y" (leads.trusts (trustedArg 1))).andThen
      fun _ _ _ _ => Heap.trusted_primitive rfl
  · exact Complies.pure (trustedArg 0)
  · exact Complies.pure (Heap.trusted_primitive rfl)
  · refine (Complies.readProperty allowed "raw" (trustedArg 0)).bind
      fun raw read leads trustedRaw => ?_
    refine (Complies.newArray (leads.trustsAll (dropped 1))).bind
      fun others last leads' trustedOthers => Complies.newArray fun value member => ?_
    simp only [List.mem_cons, List.not_mem_nil, or_false] at member
    rcases member with rfl | rfl | rfl
    · exact (leads.trans leads').trusts (trustedArg 0)
    · exact leads'.trusts trustedRaw
    · exact trustedOthers
  · exact callAny_complies calls (trustedArg 0) (trustedArg 1) (dropped 2)
  · refine (Complies.spreadValues allowed (trustedArg 0)).bind
      fun items middle leads trustedItems => ?_
    exact (mapItems_complies calls _ 0 items middle (leads.trusts (trustedArg 1))
      trustedItems).bind fun _ _ _ results => Complies.newArray results
  · refine Complies.inspect (Complies.newArray fun value member => ?_)
    rcases List.mem_map.mp member with ⟨entry, -, rfl⟩
    exact Heap.trusted_primitive rfl
  · exact Complies.inspected (Heap.trusted_primitive rfl)

end Library

end ExprScript
