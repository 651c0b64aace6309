import ExprScript.Proofs.Binding.Leaves
import ExprScript.Proofs.Guard
import ExprScript.Proofs.Variables
import ExprScript.Tree.Reinterpret

/-! # The names of a pattern and the frame of a call

A pattern binds the names that it shows, and no others. So the parameters of a function
define every one of their names once, in a frame that nothing else is defined in before
the body is evaluated: nothing refers to the frame, and a default only ever assigns.
-/

namespace ExprScript

/-! ## Distinct parameters -/

theorem firstRepeated_eq_none_iff (seen : List String) (ids : List Ident) :
    firstRepeated seen ids = none ↔
      (ids.map (·.name)).Nodup ∧ ∀ id ∈ ids, id.name ∉ seen := by
  induction ids generalizing seen with
  | nil => simp [firstRepeated]
  | cons id ids induction =>
      by_cases repeated : id.name ∈ seen
      · simp [firstRepeated, repeated]
      · simp only [firstRepeated, List.contains_iff_mem, repeated, if_false, induction,
          List.map_cons, List.nodup_cons, List.mem_cons, List.mem_map]
        grind

theorem checkDistinctParameters_eq_ok_iff (params : List Pattern) :
    checkDistinctParameters params = .ok () ↔ (params.flatMap Pattern.names).Nodup := by
  have names : params.flatMap Pattern.names =
      (params.flatMap Pattern.boundNames).map (·.name) := List.map_flatMap.symm
  have accepted : checkDistinctParameters params = .ok () ↔
      firstRepeated [] (params.flatMap Pattern.boundNames) = none := by
    unfold checkDistinctParameters
    cases firstRepeated [] (params.flatMap Pattern.boundNames) <;> simp
  rw [accepted, firstRepeated_eq_none_iff, names]
  simp

theorem eraseDups_of_nodup {names : List String} (distinct : names.Nodup) :
    names.eraseDups = names := by
  induction names with
  | nil => rfl
  | cons name names induction =>
      rcases List.nodup_cons.mp distinct with ⟨new, later⟩
      have others : names.filter (fun other => !other == name) = names := by
        apply List.filter_eq_self.mpr
        intro other member
        have different : other ≠ name := fun equal => new (equal ▸ member)
        simpa using different
      rw [List.eraseDups_cons, others, induction later]

/-! ## The keys of a frame -/

namespace Heap

def defineAll (heap : Heap) (scope : Scope) (entries : List (String × Value)) : Heap :=
  entries.foldl (fun heap (name, value) => heap.define scope name value) heap

variable {heap : Heap} {scope : Scope}

theorem keys_setVariable {frame : ObjectRef} (inside : frame.index < heap.objects.size)
    (name : String) (value : Value) :
    ((heap.setVariable frame name value).object frame).keys =
      if (heap.object frame).has name then (heap.object frame).keys
      else (heap.object frame).keys ++ [name] := by
  rw [setVariable, object_setObject, if_pos ⟨rfl, inside⟩, Record.keys_set]

theorem keys_assign {frame : ObjectRef} (notRoot : scope.root ≠ frame) (name : String)
    (value : Value) :
    ((heap.assign scope name value).object frame).keys = (heap.object frame).keys := by
  by_cases owns : frame = heap.owner scope name
  · rcases heap.owner_cases scope name with has | ⟨isRoot, -⟩
    · rw [owns, assign, keys_setVariable (inside_of_has has), if_pos has]
    · exact absurd (isRoot.symm.trans owns.symm) notRoot
  · rw [assign, setVariable, object_setObject, if_neg fun same => owns same.1]

theorem keys_define (inside : scope.inner.index < heap.objects.size) {name : String}
    (new : name ∉ (heap.object scope.inner).keys) (value : Value) :
    ((heap.define scope name value).object scope.inner).keys =
      (heap.object scope.inner).keys ++ [name] := by
  rw [define, keys_setVariable inside, if_neg]
  exact fun has => new ((Record.mem_keys_iff _ _).mpr has)

theorem keys_defineAll {entries : List (String × Value)}
    (inside : scope.inner.index < heap.objects.size)
    (distinct : ((heap.object scope.inner).keys ++ entries.map (·.1)).Nodup) :
    ((heap.defineAll scope entries).object scope.inner).keys =
      (heap.object scope.inner).keys ++ entries.map (·.1) := by
  induction entries generalizing heap with
  | nil => simp [defineAll]
  | cons entry entries induction =>
      rcases entry with ⟨name, value⟩
      have new : name ∉ (heap.object scope.inner).keys := fun member =>
        (List.nodup_append.mp distinct).2.2 name member name List.mem_cons_self rfl
      have stays : scope.inner.index < (heap.define scope name value).objects.size := by
        rw [define, size_setVariable]
        exact inside
      have keys := keys_define inside new value
      have parts : (heap.object scope.inner).keys ++ ((name, value) :: entries).map (·.1) =
          ((heap.define scope name value).object scope.inner).keys ++ entries.map (·.1) := by
        rw [keys, List.map_cons, List.append_assoc, List.singleton_append]
      rw [parts] at distinct ⊢
      exact induction stays distinct

theorem not_stores_newRoot {container part : Value} :
    ¬ (newRoot {} {}).2.Stores container part := by
  intro stores
  cases container with
  | array ref =>
      have array : (newRoot {} {}).2.array ref = {} := rfl
      change ((newRoot {} {}).2.array ref).Stores part at stores
      rw [array] at stores
      rcases stores with inside | ⟨_, far⟩ | ⟨_, named⟩
      · exact Array.not_mem_empty part inside
      · cases far
      · cases named
  | object ref =>
      have object : (newRoot {} {}).2.object ref = {} :=
        (object_newObject {} {} ref).trans (ite_self _)
      change ((newRoot {} {}).2.object ref).Stores part at stores
      rw [object] at stores
      exact Record.not_stores_empty stores
  | _ => exact stores

end Heap

/-! ## A guard for a frame -/

theorem Scope.root_push (scope : Scope) (frame : ObjectRef) :
    (scope.push frame).root = scope.root := by
  simp [Scope.root, Scope.push, Scope.frames, List.getLast?_cons]

/-- The frame is hidden and is no root, and no names are added to it. -/
def Guard.frame (frame : ObjectRef) : Guard where
  hidden := fun ref => ref = frame
  permission := { write := True, call := True }
  admits := fun scope => scope.root ≠ frame
  keeps := fun before after => (after.heap.object frame).keys = (before.heap.object frame).keys
  full_of_call := fun _ => ⟨trivial, trivial⟩
  admits_push := by
    intro scope inner notRoot _
    rwa [Scope.root_push]
  refl := fun _ => rfl
  trans := fun first second => second.trans first
  keeps_extends := fun inside grows => congrArg Record.keys (grows.object (inside frame rfl))
  keeps_memo := fun _ _ => rfl
  keeps_aside := fun _ _ _ same => congrArg Record.keys (same frame rfl)
  keeps_assign := fun _ _ _ notRoot name value => Heap.keys_assign notRoot name value
  keeps_log := fun _ _ _ => rfl

/-- Nothing in the world refers to the frame: no value that is stored or remembered, and no
function whose scope ends with it. -/
structure World.Spares (world : World) (frame : ObjectRef) : Prop where
  stored : ∀ container part, world.heap.Stores container part → part ≠ .object frame
  functions : ∀ ref closure, (world.heap.function ref).body = .arrow closure →
    closure.scope.root ≠ frame
  memo : ∀ entry ∈ world.memo, entry.2 ≠ .object frame

theorem World.Spares.holds {world : World} {scope : Scope}
    (spares : world.Spares (world.heap.newChild scope {}).1.inner) :
    (Guard.frame (world.heap.newChild scope {}).1.inner).Holds
      { world with heap := (world.heap.newChild scope {}).2 } where
  inside := by
    intro ref isFrame
    cases isFrame
    have pushed : (world.heap.newChild scope {}).2.objects = world.heap.objects.push {} := rfl
    rw [pushed, Array.size_push]
    exact Nat.lt_succ_self _
  stored := by
    intro container part stores ref isFrame
    cases isFrame
    apply spares.stored container part
    cases container with
    | object other =>
        change ((world.heap.newObject {}).2.object other).Stores part at stores
        rw [Heap.object_newObject] at stores
        split at stores
        · exact (Record.not_stores_empty stores).elim
        · exact stores
    | _ => exact stores
  functions := fun _ ref closure isArrow => spares.functions ref closure isArrow
  memo := by
    intro entry member ref isFrame
    cases isFrame
    exact spares.memo entry member

namespace Guard.Holds

variable {guard : Guard} {world : World}

theorem defineAll (holds : guard.Holds world) (scope : Scope) {entries : List (String × Value)}
    (shown : ∀ entry ∈ entries, guard.Shows entry.2) :
    guard.Holds { world with heap := world.heap.defineAll scope entries } := by
  induction entries generalizing world with
  | nil => exact holds
  | cons entry entries induction =>
      rcases List.forall_mem_cons.mp shown with ⟨here, later⟩
      exact induction (holds.setEntry scope.inner entry.1 here) later

end Guard.Holds

namespace Eval

variable {context : Context}

/-! ## What parameters define -/

/-- From one world to the other, variables are defined one after the other, with the steps of
patterns before and after them. -/
inductive Defines (context : Context) (embedded : List Expr) :
    List (String × Value) → World → World → Prop
  | done {world : World} : Defines context embedded [] world world
  | walk {defined : List (String × Value)} {before middle after : World}
      (walks : Walks context embedded before middle)
      (later : Defines context embedded defined middle after) :
      Defines context embedded defined before after
  | define {name : String} {value : Value} {defined : List (String × Value)} {world after : World}
      (later : Defines context embedded defined
        { world with heap := world.heap.define context.scope name value } after) :
      Defines context embedded ((name, value) :: defined) world after

theorem Walks.within {embedded wider : List Expr} {before after : World}
    (walks : Walks context embedded before after) (subset : embedded ⊆ wider) :
    Walks context wider before after := by
  induction walks with
  | refl => exact .refl
  | tail _ step induction =>
      apply induction.tail
      cases step with
      | newArray values => exact .newArray _ values
      | newObject record => exact .newObject _ record
      | evaluate path bindings expr member => exact .evaluate _ path bindings expr (subset member)

namespace Defines

variable {embedded wider : List Expr} {before after : World}

theorem defineAll {entries defined : List (String × Value)}
    (later : Defines context embedded defined
      { before with heap := before.heap.defineAll context.scope entries } after) :
    Defines context embedded (entries ++ defined) before after := by
  induction entries generalizing before with
  | nil => exact later
  | cons entry entries induction => exact .define (induction later)

theorem mono {defined : List (String × Value)}
    (defines : Defines context embedded defined before after) (within : embedded ⊆ wider) :
    Defines context wider defined before after := by
  induction defines with
  | done => exact .done
  | walk walks _ induction => exact .walk (walks.within within) induction
  | define _ induction => exact .define induction

end Defines

theorem bindParam_advances (path : Path) (index : Nat) (args : List Value) (param : Pattern)
    (start : World) : Advances context param.embedded start
      (bindParam context path index args param) := by
  cases param with
  | rest loc argument =>
      rw [bindParam]
      apply Advances.bind (.newArray args)
      intro array
      exact bind_advances context _ start _ _ array argument (List.Subset.refl _)
  | _ =>
      rw [bindParam]
      · exact bind_advances context _ start _ _ _ _ (List.Subset.refl _)
      · simp

private theorem bind_keys_of_nodup (path : Path) (value : Value) {pattern : Pattern}
    (distinct : pattern.names.Nodup) (before : World) :
    Ensures (bind context path {} value pattern) before fun record _ =>
      record.keys = pattern.names := by
  intro record after run
  have all : pattern.names.filter (· ∉ Record.keys {}) = pattern.names := by
    simp [Record.keys]
  rw [bind_keys context path {} value pattern before record after run, all,
    eraseDups_of_nodup distinct]
  rfl

theorem bindParam_keys (path : Path) (index : Nat) (args : List Value) (param : Pattern)
    (distinct : param.names.Nodup) (before : World) :
    Ensures (bindParam context path index args param) before fun record _ =>
      record.keys = param.names := by
  cases param with
  | rest loc argument =>
      rw [bindParam]
      apply Ensures.bindAny
      intro array middle
      exact bind_keys_of_nodup _ array distinct middle
  | _ =>
      rw [bindParam]
      · exact bind_keys_of_nodup _ _ distinct before
      · simp

/-- A parameter defines what it has bound before the next one has its turn. -/
theorem bindParams_cons_ensures {path : Path} {index : Nat} {args : List Value} {param : Pattern}
    {params : List Pattern} {before : World} {post : Unit → World → Prop}
    (ensures : ∀ record middle, bindParam context path index args param before =
      .ok record middle → Ensures (bindParams context path (index + 1) args.tail params)
        { middle with heap := middle.heap.defineAll context.scope record.entries } post) :
    Ensures (bindParams context path index args (param :: params)) before post := by
  rw [bindParams_cons]
  apply Ensures.bind
  intro record middle run
  apply Ensures.bind
  intro _ defined defines
  cases defines
  exact ensures record middle run

theorem bindParams_defines (path : Path) (index : Nat) (args : List Value) (params : List Pattern)
    (distinct : (params.flatMap Pattern.names).Nodup) (before : World) :
    Ensures (bindParams context path index args params) before fun _ after =>
      ∃ defined, defined.map (·.1) = params.flatMap Pattern.names ∧
        Defines context (params.flatMap Pattern.embedded) defined before after := by
  induction params generalizing index args before with
  | nil => exact Ensures.pure ⟨[], rfl, .done⟩
  | cons param params induction =>
      rw [List.flatMap_cons, List.nodup_append] at distinct
      rcases distinct with ⟨here, later, -⟩
      apply bindParams_cons_ensures
      intro record middle run
      have keys := bindParam_keys path index args param here before record middle run
      have advances : Advances context param.embedded before
          (bindParam context path index args param) := bindParam_advances path index args param _
      have walks := advances.walks
      rw [run] at walks
      refine (induction (index + 1) args.tail later _).mono ?_
      intro _ after others
      rcases others with ⟨others, names, defines⟩
      refine ⟨record.entries ++ others, ?_, ?_⟩
      · rw [List.map_append, names, List.flatMap_cons, ← keys]
        rfl
      · rw [List.flatMap_cons]
        exact .walk (walks.within (List.subset_append_left _ _))
          (.defineAll (defines.mono (List.subset_append_right _ _)))

/-- What a parameter evaluates cannot reach the frame, other than to assign a variable in it. -/
theorem bindParams_keys (spares : context.Spares (.frame context.scope.inner)) (path : Path)
    (index : Nat) (args : List Value)
    (shown : ∀ argument ∈ args, argument ≠ .object context.scope.inner) (params : List Pattern)
    {before : World} (holds : (Guard.frame context.scope.inner).Holds before)
    (distinct : ((before.heap.object context.scope.inner).keys ++
      params.flatMap Pattern.names).Nodup) :
    Ensures (bindParams context path index args params) before fun _ after =>
      (after.heap.object context.scope.inner).keys =
        (before.heap.object context.scope.inner).keys ++ params.flatMap Pattern.names := by
  induction params generalizing index args before with
  | nil => exact Ensures.pure (List.append_nil _).symm
  | cons param params induction =>
      rw [List.flatMap_cons, ← List.append_assoc] at distinct
      apply bindParams_cons_ensures
      intro record middle run
      have here : param.names.Nodup := (List.nodup_append.mp (List.nodup_append.mp distinct).1).2.1
      have keys := bindParam_keys path index args param here before record middle run
      have arguments : ∀ argument ∈ args, (Guard.frame context.scope.inner).Shows argument := by
        intro argument member ref isFrame
        cases isFrame
        exact shown argument member
      have outcome := bindParam_respects spares path index arguments param
        (param.allowed ⟨trivial, trivial⟩) before holds
      rw [run] at outcome
      rcases outcome with ⟨⟨still, kept⟩, shownRecord⟩
      have entries : record.entries.map (·.1) = param.names := keys
      have defined : ((middle.heap.defineAll context.scope record.entries).object
          context.scope.inner).keys = (before.heap.object context.scope.inner).keys ++
            param.names := by
        rw [Heap.keys_defineAll (still.inside _ rfl), kept, entries]
        rw [kept, entries]
        exact (List.nodup_append.mp distinct).1
      have remaining := induction (index + 1) args.tail
        (fun argument member => shown argument (List.mem_of_mem_tail member))
        (still.defineAll context.scope fun entry member => shownRecord entry.2 ⟨entry.1, member⟩)
        (by rwa [defined])
      rwa [defined, List.append_assoc] at remaining

/-- A pattern binds the names that it shows and no others. The record that it returns has the keys
of the record before, in their order, and then the names that are new, each at its first
occurrence.

So a function whose parameters are accepted defines each of its parameters once before its body is
evaluated. All else that happens are steps of the patterns. If nothing refers to the new frame,
then what these evaluate cannot add a name to it, and the frame has the parameters as its only
names when the body is entered. -/
theorem bind_collected_names :
    (∀ context path seed value pattern before record after,
      bind context path seed value pattern before = .ok record after →
        record.keys = seed.keys ++ (pattern.names.filter (· ∉ seed.keys)).eraseDups ∧
          record.keys.Nodup) ∧
    ∀ (call : Caller) (closure : Closure) (args : List Value) (before : World),
      checkDistinctParameters closure.params = .ok () →
        let (scope, heap) := before.heap.newChild closure.scope {}
        let context : Context := { call, scope, useMemo := false, tree := closure.tree }
        let start := { before with heap }
        (closure.params.flatMap Pattern.names).Nodup ∧
        (start.heap.object scope.inner).keys = [] ∧
        callClosure call closure args before = (do
          bindParams context closure.path 0 args closure.params
          valueOf (eval context .value (.body :: closure.path) closure.body)) start ∧
        ∀ ready, bindParams context closure.path 0 args closure.params start = .ok () ready →
          (∃ defined, defined.map (·.1) = closure.params.flatMap Pattern.names ∧
            Defines context (closure.params.flatMap Pattern.embedded) defined start ready) ∧
          (call.Spares (.frame scope.inner) → before.Spares scope.inner →
            closure.scope.root ≠ scope.inner → (∀ arg ∈ args, arg ≠ .object scope.inner) →
              (ready.heap.object scope.inner).keys = closure.params.flatMap Pattern.names) := by
  constructor
  · intro context path seed value pattern before record after run
    exact ⟨bind_keys context path seed value pattern before record after run, record.distinct⟩
  · intro call closure args before accepted
    have distinct := (checkDistinctParameters_eq_ok_iff _).mp accepted
    have empty : ((before.heap.newChild closure.scope {}).2.object
        (before.heap.newChild closure.scope {}).1.inner).keys = [] := by
      have created : (before.heap.newChild closure.scope {}).2.object
          (before.heap.newChild closure.scope {}).1.inner = {} :=
        (Heap.object_newObject ..).trans (if_pos rfl)
      rw [created]
      rfl
    refine ⟨distinct, empty, rfl, ?_⟩
    intro ready run
    constructor
    · exact bindParams_defines _ 0 args closure.params distinct _ () ready run
    · intro calls spares notRoot shown
      have admitted : (Guard.frame (before.heap.newChild closure.scope {}).1.inner).admits
          (before.heap.newChild closure.scope {}).1 := by
        change (closure.scope.push _).root ≠ _
        rwa [Scope.root_push]
      have names : (((before.heap.newChild closure.scope {}).2.object
          (before.heap.newChild closure.scope {}).1.inner).keys ++
            closure.params.flatMap Pattern.names).Nodup := by
        rwa [empty]
      have keys := @bindParams_keys { call, scope := _, useMemo := false, tree := closure.tree }
        ⟨admitted, fun _ => calls⟩ closure.path 0 args shown closure.params
        { before with heap := _ } spares.holds names () ready run
      exact keys.trans (congrArg (· ++ _) empty)

/-- The function `(a, {b = a}) => b` is called with two booleans. Its frame has the names `a`
and `b`. -/
theorem bind_collected_names_default :
    let first : Ident := { name := "a" }
    let second : Ident := { name := "b" }
    let params : List Pattern := [.ident first, .object {} [.field {} (.name second)
      (.withDefault {} (.ident second) (.ident first)) true]]
    let (outer, heap) := Heap.newRoot {} {}
    let (scope, heap) := heap.newChild outer {}
    let context : Context :=
      { call := callFunction Library.host 5, scope, useMemo := false, tree := 0 }
    ∃ ready, bindParams context [] 0 [.boolean true, .boolean false] params { heap } =
        .ok () ready ∧
      (ready.heap.object scope.inner).keys = ["a", "b"] := by
  intro first second params
  have called := bind_collected_names.2 (callFunction Library.host 5)
    { tree := 0, path := [], params, body := .ident second, scope := (Heap.newRoot {} {}).1 }
    [.boolean true, .boolean false] { heap := (Heap.newRoot {} {}).2 } rfl
  have keys := (called.2.2.2 _ rfl).2 (callFunction_spares (Library.host_spares trivial) trivial 5)
    ⟨?_, fun _ _ => nofun, nofun⟩ (by decide) (by simp)
  · exact ⟨_, rfl, keys⟩
  · exact fun _ _ stores => (Heap.not_stores_newRoot stores).elim

end Eval

end ExprScript
