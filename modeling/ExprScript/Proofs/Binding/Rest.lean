import ExprScript.Eval.Call
import ExprScript.Proofs.ArrayRepresentation
import ExprScript.Proofs.Binding.Leaves
import ExprScript.Proofs.Effect.Heap
import ExprScript.Proofs.Number.Written

/-! # What a rest gets

The elements and properties before a rest take their parts one after the other, each
by its own place or key. The rest gets what is left over: the items from its place on,
or the entries whose keys have not been taken, in their order.
-/

namespace ExprScript

/-! ## Own entries -/

theorem toString_nat_injective : Function.Injective (toString : Nat → String) := by
  intro first second equal
  have digits : Nat.toDigits 10 first = Nat.toDigits 10 second := by
    rw [← Nat.toList_repr, ← Nat.toList_repr, ← Nat.toString_eq_repr, ← Nat.toString_eq_repr, equal]
  rw [← Number.digitsToNat_toDigits first, digits, Number.digitsToNat_toDigits]

namespace Heap

theorem ownEntries_string_keys (heap : Heap) (text : String) :
    (heap.ownEntries (.string text)).map (·.1) =
      (List.range (Text.units text).length).map toString := by
  have places : (Text.units text).zipIdx.map Prod.snd = List.range (Text.units text).length := by
    rw [List.zipIdx_map_snd, List.range_eq_range']
  rw [← places, List.map_map]
  simp only [ownEntries, List.map_map]
  rfl

theorem ownEntries_distinct {heap : Heap} {value : Value}
    (layout : ∀ ref, value = .array ref → (heap.array ref).Layout) :
    ((heap.ownEntries value).map (·.1)).Nodup := by
  cases value with
  | object ref => exact (heap.object ref).distinct
  | array ref =>
      have increasing := (layout ref rfl).entries_increasing
      unfold ownEntries
      rw [List.map_map]
      apply (List.pairwise_map ..).mpr
      apply increasing.imp
      intro first second before equal
      exact absurd (toString_nat_injective equal) (Nat.ne_of_lt before)
  | string text =>
      rw [ownEntries_string_keys]
      exact List.nodup_range.map toString_nat_injective
  | _ => exact List.nodup_nil

end Heap

/-! ## Places of an array pattern -/

namespace Eval

def bindElement (context : Context) (path : Path) (items : List Value) (bindings : Record) :
    Option Pattern × Nat → Eval Record
  | (none, _) => return bindings
  | (some element, index) =>
    bind context (.item index :: path) bindings (items[index]?.getD .undefined) element

theorem bindElements_append (context : Context) (path : Path) (items : List Value)
    (elements last : List (Option Pattern))
    (noRest : ∀ loc argument, some (.rest loc argument) ∉ elements) (index : Nat)
    (bindings : Record) :
    bindElements context path index bindings (items.drop index) (elements ++ last) = (do
      let bindings ← (elements.zipIdx index).foldlM (bindElement context path items) bindings
      bindElements context path (index + elements.length) bindings
        (items.drop (index + elements.length)) last) := by
  induction elements generalizing index bindings with
  | nil => exact (pure_bind ..).symm
  | cons element elements induction =>
      have later := induction fun loc argument member =>
        noRest loc argument (List.mem_cons_of_mem _ member)
      have place : index + (element :: elements).length = index + 1 + elements.length := by
        rw [List.length_cons]
        omega
      rw [List.cons_append, List.zipIdx_cons, List.foldlM_cons, place, bind_assoc]
      cases element with
      | none =>
          rw [bindElements, List.tail_drop, later]
          exact (pure_bind ..).symm
      | some element =>
          have notRest : ∀ loc argument, element ≠ .rest loc argument :=
            fun loc argument equal => noRest loc argument (equal ▸ List.mem_cons_self)
          rw [bindElements_some _ _ _ _ _ _ _ notRest, List.tail_drop, List.head?_drop]
          exact bind_congr fun bindings => later (index + 1) bindings

/-! ## Keys of an object pattern -/

/-- A property of an object pattern takes the value of its key, which is added to the keys taken
before. -/
def bindField (context : Context) (path : Path) (value : Value) :
    Record × List String → PatternProperty × Nat → Eval (Record × List String)
  | (bindings, taken), (.field loc key pattern _, index) => do
    let name ← evalPatternKey context (.key :: .item index :: path) bindings key
    let item ← readProperty loc.start value name
    let bindings ← bind context (.value :: .item index :: path) bindings item pattern
    return (bindings, name :: taken)
  | state, (.rest .., _) => return state

theorem bindProperties_append (context : Context) (path : Path) (value : Value)
    (properties last : List PatternProperty)
    (noRest : ∀ loc argument, .rest loc argument ∉ properties) (index : Nat)
    (state : Record × List String) :
    bindProperties context path index state.1 value state.2 (properties ++ last) = (do
      let state ← (properties.zipIdx index).foldlM (bindField context path value) state
      bindProperties context path (index + properties.length) state.1 value state.2 last) := by
  induction properties generalizing index state with
  | nil => exact (pure_bind ..).symm
  | cons property properties induction =>
      have later := induction fun loc argument member =>
        noRest loc argument (List.mem_cons_of_mem _ member)
      have place : index + (property :: properties).length = index + 1 + properties.length := by
        rw [List.length_cons]
        omega
      rw [List.cons_append, List.zipIdx_cons, List.foldlM_cons, place, bind_assoc]
      cases property with
      | field loc key pattern shorthand =>
          rw [bindProperties, bindField]
          simp only [bind_assoc, pure_bind]
          exact bind_congr fun name => bind_congr fun item => bind_congr fun bindings =>
            later (index + 1) (bindings, name :: state.2)
      | rest loc argument => exact absurd List.mem_cons_self (noRest loc argument)

/-- A run over the properties in front of a rest, with their keys. A key is evaluated with the
bindings and in the world that the run has come to, its property is read and taken apart, and the
run goes on with what that leaves. -/
inductive FieldsRun (context : Context) (path : Path) (value : Value) :
    Nat → Record → World → List PatternProperty → List String → Record → World → Prop
  | nil {index : Nat} {bindings : Record} {world : World} :
      FieldsRun context path value index bindings world [] [] bindings world
  | cons {index : Nat} {bindings bindings' bindings'' : Record} {loc : Span} {key : PropertyKey}
      {pattern : Pattern} {shorthand : Bool} {properties : List PatternProperty} {name : String}
      {names : List String} {item : Value} {before keyed read middle after : World}
      (evaluated : evalPatternKey context (.key :: .item index :: path) bindings key before =
        .ok name keyed)
      (reads : readProperty loc.start value name keyed = .ok item read)
      (binds : bind context (.value :: .item index :: path) bindings item pattern read =
        .ok bindings' middle)
      (later : FieldsRun context path value (index + 1) bindings' middle properties names bindings''
        after) :
      FieldsRun context path value index bindings before
        (.field loc key pattern shorthand :: properties) (name :: names) bindings'' after

/-- The keys that are collected are those of the run. -/
theorem bindFields_run (context : Context) (path : Path) (value : Value)
    (properties : List PatternProperty) (noRest : ∀ loc argument, .rest loc argument ∉ properties)
    (index : Nat) (state : Record × List String) (before : World) :
    Ensures ((properties.zipIdx index).foldlM (bindField context path value) state) before
      fun result after => ∃ names,
        FieldsRun context path value index state.1 before properties names result.1 after ∧
          result.2 = names.reverse ++ state.2 := by
  induction properties generalizing index state before with
  | nil => exact Ensures.pure ⟨[], .nil, rfl⟩
  | cons property properties induction =>
      have later := induction fun loc argument member =>
        noRest loc argument (List.mem_cons_of_mem _ member)
      rw [List.zipIdx_cons, List.foldlM_cons]
      cases property with
      | rest loc argument => exact absurd List.mem_cons_self (noRest loc argument)
      | field loc key pattern shorthand =>
          apply Ensures.bind
          rw [bindField]
          apply Ensures.bind
          intro name keyed evaluated
          apply Ensures.bind
          intro item read reads
          apply Ensures.bind
          intro bindings middle binds
          apply Ensures.pure
          intro result after run
          rcases later (index + 1) (bindings, name :: state.2) middle result after run with
            ⟨names, fields, taken⟩
          refine ⟨name :: names, .cons evaluated reads binds fields, ?_⟩
          rw [taken, List.reverse_cons, List.append_assoc, List.singleton_append]

/-! ## Rests -/

variable {context : Context} {path : Path} {bindings : Record} {value : Value} {before : World}

/-- The rest of an array pattern gets a new array with the items that are left. -/
theorem bind_array_rest {elements : List (Option Pattern)} {items : List Value}
    (noRest : ∀ loc argument, some (.rest loc argument) ∉ elements)
    (iterates : before.heap.iterate value = .ok items) (loc restLoc : Span) (argument : Pattern) :
    bind context path bindings value (.array loc (elements ++ [some (.rest restLoc argument)]))
      before = (do
        let bindings ← elements.zipIdx.foldlM (bindElement context path items) bindings
        let others ← newArray (items.drop elements.length)
        bind context (.inner :: .item elements.length :: path) bindings others argument)
      before := by
  rw [bind, if_neg (not_isNullish_of_iterate iterates), bind_run (spreadValues_run iterates _)]
  have whole := bindElements_append context path items elements [some (.rest restLoc argument)]
    noRest 0 bindings
  rw [List.drop_zero, Nat.zero_add] at whole
  rw [whole]
  simp only [bindElements, bind_pure]

/-- The rest of an object pattern gets a new object with the entries that are left. -/
theorem bind_object_rest {properties : List PatternProperty}
    (noRest : ∀ loc argument, .rest loc argument ∉ properties)
    (present : value.isNullish = false) (loc restLoc : Span) (argument : Pattern) :
    bind context path bindings value (.object loc (properties ++ [.rest restLoc argument])) = (do
        let (bindings, taken) ←
          properties.zipIdx.foldlM (bindField context path value) (bindings, [])
        let entries ← inspect fun heap => heap.ownEntries value
        let others ← newObject (.ofEntries (entries.filter fun (key, _) => !taken.contains key))
        bind context (.inner :: .item properties.length :: path) bindings others argument) := by
  have whole := bindProperties_append context path value properties [.rest restLoc argument]
    noRest 0 (bindings, [])
  rw [Nat.zero_add] at whole
  rw [bind, if_neg (Bool.eq_false_iff.mp present), whole]
  simp only [bindProperties, bind_pure]

theorem newArray_holds (values : List Value) (world : World) : ∃ ref after,
    newArray values world = .ok (.array ref) after ∧ world.GrowsTo after ∧
      ref.index = world.heap.arrays.size ∧ after.heap.iterate (.array ref) = .ok values := by
  refine ⟨_, _, rfl, ⟨.newArray _ _, rfl⟩, rfl, ?_⟩
  have stored := Heap.array_newArray world.heap (.ofList values) ⟨world.heap.arrays.size⟩
  rw [if_pos rfl] at stored
  change Except.ok (((world.heap.newArray (.ofList values)).2.array _).toList) = _
  rw [stored, ArrayStore.toList_ofList]

theorem newObject_holds (record : Record) (world : World) : ∃ ref after,
    newObject record world = .ok (.object ref) after ∧ world.GrowsTo after ∧
      ref.index = world.heap.objects.size ∧ after.heap.object ref = record := by
  refine ⟨_, _, rfl, ⟨.newObject _ _, rfl⟩, rfl, ?_⟩
  have stored := Heap.object_newObject world.heap record ⟨world.heap.objects.size⟩
  rwa [if_pos rfl] at stored

theorem entries_ofEntries_filter {heap : Heap} (keep : String × Value → Bool)
    (layout : ∀ ref, value = .array ref → (heap.array ref).Layout) :
    (Record.ofEntries ((heap.ownEntries value).filter keep)).entries =
      (heap.ownEntries value).filter keep := by
  apply Record.entries_setAll
  exact (List.filter_sublist.map _).nodup (Heap.ownEntries_distinct layout)

/-- A rest neither loses nor repeats anything. In front of the rest of an array pattern every
element takes the item at its place, and the rest is a new array of the items from its own place
on. In front of the rest of an object pattern every property takes the value of its key, and the
rest is a new object of the entries of the value whose keys are others than those of the run, in
their order, unless they have been changed in the meantime. -/
theorem bind_rest (context : Context) (path : Path) (bindings : Record) (value : Value)
    (before : World) :
    (∀ (elements : List (Option Pattern)) (items : List Value) (loc restLoc : Span)
      (argument : Pattern), (∀ loc argument, some (.rest loc argument) ∉ elements) →
      before.heap.iterate value = .ok items →
      let whole : Pattern := .array loc (elements ++ [some (.rest restLoc argument)])
      match elements.zipIdx.foldlM (bindElement context path items) bindings before with
      | .error failure after => bind context path bindings value whole before = .error failure after
      | .ok fields reached => ∃ ref allocated, reached.GrowsTo allocated ∧
          ref.index = reached.heap.arrays.size ∧
          allocated.heap.iterate (.array ref) = .ok (items.drop elements.length) ∧
          bind context path bindings value whole before =
            bind context (.inner :: .item elements.length :: path) fields (.array ref) argument
              allocated) ∧
    (∀ (properties : List PatternProperty) (loc restLoc : Span) (argument : Pattern),
      (∀ loc argument, .rest loc argument ∉ properties) → value.isNullish = false →
      let whole : Pattern := .object loc (properties ++ [.rest restLoc argument])
      match properties.zipIdx.foldlM (bindField context path value) (bindings, []) before with
      | .error failure after => bind context path bindings value whole before = .error failure after
      | .ok fields reached => ∃ names ref allocated, reached.GrowsTo allocated ∧
          ref.index = reached.heap.objects.size ∧
          FieldsRun context path value 0 bindings before properties names fields.1 reached ∧
          fields.2 = names.reverse ∧
          ((∀ ref, value = .array ref → (reached.heap.array ref).Layout) →
            reached.heap.ownEntries value = before.heap.ownEntries value →
            (allocated.heap.object ref).entries =
              (before.heap.ownEntries value).filter (·.1 ∉ names)) ∧
          bind context path bindings value whole before =
            bind context (.inner :: .item properties.length :: path) fields.1 (.object ref)
              argument allocated) := by
  constructor
  · intro elements items loc restLoc argument noRest iterates whole
    have equation : bind context path bindings value whole before = _ :=
      bind_array_rest noRest iterates loc restLoc argument
    split
    · next failure after run => rw [equation, bind_failed run]
    · next fields reached run =>
        rcases newArray_holds (items.drop elements.length) reached with
          ⟨ref, allocated, creates, grows, new, holds⟩
        refine ⟨ref, allocated, grows, new, holds, ?_⟩
        rw [equation, bind_run run, bind_run creates]
  · intro properties loc restLoc argument noRest present whole
    have equation : bind context path bindings value whole = _ :=
      bind_object_rest noRest present loc restLoc argument
    split
    · next failure after run => rw [equation, bind_failed run]
    · next fields reached run =>
        rcases bindFields_run context path value properties noRest 0 (bindings, []) before fields
          reached run with ⟨names, fieldsRun, isTaken⟩
        rw [List.append_nil] at isTaken
        rcases fields with ⟨fields, taken⟩
        let keep : String × Value → Bool := fun (key, _) => !taken.contains key
        rcases newObject_holds (.ofEntries ((reached.heap.ownEntries value).filter keep)) reached
          with ⟨ref, allocated, creates, grows, new, holds⟩
        refine ⟨names, ref, allocated, grows, new, fieldsRun, isTaken, ?_, ?_⟩
        · intro layout unchanged
          rw [holds, entries_ofEntries_filter keep layout, unchanged]
          apply List.filter_congr
          intro entry _
          simp [keep, show taken = _ from isTaken]
        · rw [equation, bind_run run]
          exact bind_run creates fun others =>
            bind context (.inner :: .item properties.length :: path) fields others argument

/-- The array of `true` and `false` is taken apart by `[x, ...others]` and by
`{"0": x, ...others}`. -/
theorem bind_rest_pair :
    let name (text : String) : Pattern := .ident { name := text }
    let (scope, heap) := Heap.newRoot
      { arrays := #[.ofList [.boolean true, .boolean false]] } {}
    let context := rootContext (fun _ => none) scope false 0
    (∃ ref after, after.heap.iterate (.array ref) = .ok [.boolean false] ∧
      bind context [] {} (.array ⟨0⟩) (.array {} [some (name "x"), some (.rest {} (name "others"))])
        { heap } = .ok (.ofEntries [("x", .boolean true), ("others", .array ref)]) after) ∧
    ∃ ref after, (after.heap.object ref).entries = [("1", .boolean false)] ∧
      bind context [] {} (.array ⟨0⟩)
        (.object {} [.field {} (.string { value := "0" }) (name "x") false,
          .rest {} (name "others")])
        { heap } = .ok (.ofEntries [("x", .boolean true), ("others", .object ref)]) after := by
  intro name
  rcases bind_rest (rootContext (fun _ => none) { inner := ⟨0⟩ } false 0) [] {} (.array ⟨0⟩)
    { heap := { arrays := #[.ofList [.boolean true, .boolean false]], objects := #[{}] } } with
    ⟨arrays, objects⟩
  constructor
  · rcases arrays [some (name "x")] [.boolean true, .boolean false] {} {} (name "others")
      (by simp [name]) rfl with ⟨ref, after, -, -, holds, equation⟩
    exact ⟨ref, after, holds, equation⟩
  · rcases objects [.field {} (.string { value := "0" }) (name "x") false] {} {} (name "others")
      (by simp) rfl with ⟨names, ref, after, -, -, fieldsRun, -, entries, equation⟩
    refine ⟨ref, after, ?_, equation⟩
    rw [entries (fun _ equal => by cases equal; exact .ofList _) rfl]
    cases fieldsRun with
    | cons evaluated _ _ later =>
        cases later
        cases evaluated
        rfl

end Eval

end ExprScript
