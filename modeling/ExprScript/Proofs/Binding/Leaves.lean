import ExprScript.Proofs.Binding.Walk
import ExprScript.Proofs.RecordEntries

/-! # The leaves of a pattern

A pattern binds its names one after the other. `Binds` is the run of a pattern that
succeeds, with the names in the order in which they are bound and the values they are
bound to; a name that occurs twice is in the list twice. The record of the pattern is
made of this list, and the names are those that the pattern shows.
-/

namespace ExprScript

/-- The texts of the names that a pattern binds, in source order. -/
def Pattern.names (pattern : Pattern) : List String := pattern.boundNames.map (·.name)

namespace Eval

mutual

/-- The pattern takes the value apart and binds the names to the values. -/
inductive Binds (context : Context) :
    Path → Record → Value → Pattern → World → List (String × Value) → World → Prop
  | ident {path bindings value id world} :
      Binds context path bindings value (.ident id) world [(id.name, value)] world
  | rest {path bindings value loc argument before bound after}
      (binds : Binds context (.inner :: path) bindings value argument before bound after) :
      Binds context path bindings value (.rest loc argument) before bound after
  | withDefault {path bindings value loc target fallback before found middle bound after}
      (supplied : supply context (.value :: path) bindings value fallback before =
        .ok found middle)
      (binds : Binds context (.target :: path) bindings found target middle bound after) :
      Binds context path bindings value (.withDefault loc target fallback) before bound after
  | array {path bindings value loc elements before items bound after}
      (iterates : before.heap.iterate value = .ok items)
      (binds : BindsElements context path 0 bindings items elements before bound after) :
      Binds context path bindings value (.array loc elements) before bound after
  | object {path bindings value loc properties before bound after}
      (present : value.isNullish = false)
      (binds : BindsProperties context path 0 bindings value [] properties before bound after) :
      Binds context path bindings value (.object loc properties) before bound after

inductive BindsElements (context : Context) : Path → Nat → Record → List Value →
    List (Option Pattern) → World → List (String × Value) → World → Prop
  | nil {path index bindings items world} :
      BindsElements context path index bindings items [] world [] world
  | hole {path index bindings items elements before bound after}
      (later : BindsElements context path (index + 1) bindings items.tail elements before bound
        after) :
      BindsElements context path index bindings items (none :: elements) before bound after
  | rest {path index bindings items loc argument elements before array middle bound last others
      after}
      (creates : newArray items before = .ok array middle)
      (binds : Binds context (.inner :: .item index :: path) bindings array argument middle bound
        last)
      (later : BindsElements context path (index + 1) (bindings.setAll bound) items.tail elements
        last others after) :
      BindsElements context path index bindings items (some (.rest loc argument) :: elements)
        before (bound ++ others) after
  | element {path index bindings items element elements before bound last others after}
      (notRest : ∀ loc argument, element ≠ .rest loc argument)
      (binds : Binds context (.item index :: path) bindings (items.head?.getD .undefined) element
        before bound last)
      (later : BindsElements context path (index + 1) (bindings.setAll bound) items.tail elements
        last others after) :
      BindsElements context path index bindings items (some element :: elements) before
        (bound ++ others) after

inductive BindsProperties (context : Context) : Path → Nat → Record → Value → List String →
    List PatternProperty → World → List (String × Value) → World → Prop
  | nil {path index bindings value taken world} :
      BindsProperties context path index bindings value taken [] world [] world
  | field {path index bindings value taken loc key pattern shorthand properties before name keyed
      item read bound last others after}
      (found : evalPatternKey context (.key :: .item index :: path) bindings key before =
        .ok name keyed)
      (reads : readProperty loc.start value name keyed = .ok item read)
      (binds : Binds context (.value :: .item index :: path) bindings item pattern read bound last)
      (later : BindsProperties context path (index + 1) (bindings.setAll bound) value
        (name :: taken) properties last others after) :
      BindsProperties context path index bindings value taken
        (.field loc key pattern shorthand :: properties) before (bound ++ others) after
  | rest {path index bindings value taken loc argument properties before object middle bound last
      others after}
      (creates : newObject (.ofEntries ((before.heap.ownEntries value).filter fun (key, _) =>
        !taken.contains key)) before = .ok object middle)
      (binds : Binds context (.inner :: .item index :: path) bindings object argument middle bound
        last)
      (later : BindsProperties context path (index + 1) (bindings.setAll bound) value taken
        properties last others after) :
      BindsProperties context path index bindings value taken (.rest loc argument :: properties)
        before (bound ++ others) after

end

/-! ## The names -/

mutual

theorem Binds.names {context : Context} {path : Path} {bindings : Record} {value : Value}
    {before after : World} {bound : List (String × Value)} : ∀ {pattern : Pattern},
      Binds context path bindings value pattern before bound after →
        bound.map (·.1) = pattern.names
  | _, .ident => rfl
  | _, .rest binds => binds.names
  | _, .withDefault _ binds => binds.names
  | _, .array _ binds => binds.names
  | _, .object _ binds => binds.names

theorem BindsElements.names {context : Context} {path : Path} {index : Nat} {bindings : Record}
    {items : List Value} {before after : World} {bound : List (String × Value)} :
    ∀ {elements : List (Option Pattern)},
      BindsElements context path index bindings items elements before bound after →
        bound.map (·.1) = (Pattern.elementNames elements).map (·.name)
  | _, .nil => rfl
  | _, .hole later => later.names
  | _, .rest _ binds later => by
      rw [List.map_append, binds.names, later.names, Pattern.elementNames, List.map_append]
      rfl
  | _, .element _ binds later => by
      rw [List.map_append, binds.names, later.names, Pattern.elementNames, List.map_append]
      rfl

theorem BindsProperties.names {context : Context} {path : Path} {index : Nat} {bindings : Record}
    {value : Value} {taken : List String} {before after : World} {bound : List (String × Value)} :
    ∀ {properties : List PatternProperty},
      BindsProperties context path index bindings value taken properties before bound after →
        bound.map (·.1) = (Pattern.propertyNames properties).map (·.name)
  | _, .nil => rfl
  | _, .field _ _ binds later => by
      rw [List.map_append, binds.names, later.names, Pattern.propertyNames, List.map_append]
      rfl
  | _, .rest _ binds later => by
      rw [List.map_append, binds.names, later.names, Pattern.propertyNames, List.map_append]
      rfl

end

/-! ## Every success is such a run -/

def Collected (bindings : Record) (run : List (String × Value) → World → Prop)
    (record : Record) (after : World) : Prop :=
  ∃ bound, run bound after ∧ record = bindings.setAll bound

theorem Collected.mono {bindings : Record} {run whole : List (String × Value) → World → Prop}
    {record : Record} {after : World} (collected : Collected bindings run record after)
    (within : ∀ bound, run bound after → whole bound after) :
    Collected bindings whole record after := by
  rcases collected with ⟨bound, runs, rfl⟩
  exact ⟨bound, within bound runs, rfl⟩

theorem Collected.append {bindings : Record} {first : List (String × Value)}
    {run whole : List (String × Value) → World → Prop}
    {record : Record} {after : World}
    (collected : Collected (bindings.setAll first) run record after)
    (joins : ∀ others, run others after → whole (first ++ others) after) :
    Collected bindings whole record after := by
  rcases collected with ⟨others, runs, rfl⟩
  exact ⟨first ++ others, joins others runs, Record.setAll_append.symm⟩

theorem spreadValues_ensures (position : Position) (value : Value) (world : World) :
    Ensures (spreadValues position value) world fun items after =>
      world.heap.iterate value = .ok items ∧ after = world := by
  intro items after run
  have evaluated : spreadValues position value world =
      anchored position (ofExcept (world.heap.iterate value)) world := rfl
  rw [evaluated, anchored, EStateM.run] at run
  cases iterated : world.heap.iterate value with
  | ok found =>
      rw [iterated] at run
      cases run
      exact ⟨rfl, rfl⟩
  | error failure =>
      rw [iterated] at run
      cases run

section

variable (context : Context)

mutual

theorem bind_binds (path : Path) (bindings : Record) (value : Value) (before : World) :
    ∀ pattern : Pattern, Ensures (bind context path bindings value pattern) before
      (Collected bindings (Binds context path bindings value pattern before))
  | .ident id => by
      rw [bind]
      exact Ensures.pure ⟨[(id.name, value)], .ident, rfl⟩
  | .rest _ argument => by
      rw [bind]
      exact (bind_binds _ bindings value before argument).mono fun _ _ collected =>
        collected.mono fun _ => .rest
  | .withDefault _ target fallback => by
      rw [bind_withDefault]
      apply Ensures.bind
      intro found middle supplied
      exact (bind_binds _ bindings found middle target).mono fun _ _ collected =>
        collected.mono fun _ => .withDefault supplied
  | .array loc elements => by
      rw [bind]
      apply Ensures.ite
      · intro _
        exact Ensures.bindAny fun _ _ => Ensures.throw _
      · intro _
        apply Ensures.bind
        intro items middle run
        rcases spreadValues_ensures loc.start value before items middle run with ⟨iterates, rfl⟩
        exact (bindElements_binds path 0 bindings items middle elements).mono
          fun _ _ collected => collected.mono fun _ => .array iterates
  | .object loc properties => by
      rw [bind]
      apply Ensures.ite
      · intro _
        exact Ensures.bindAny fun _ _ => Ensures.throw _
      · intro present
        exact (bindProperties_binds path 0 bindings value [] before properties).mono
          fun _ _ collected => collected.mono fun _ =>
            .object (Bool.eq_false_of_not_eq_true present)

theorem bindElements_binds (path : Path) (index : Nat) (bindings : Record) (items : List Value)
    (before : World) : ∀ elements : List (Option Pattern),
      Ensures (bindElements context path index bindings items elements) before
        (Collected bindings (BindsElements context path index bindings items elements before))
  | [] => by
      rw [bindElements]
      exact Ensures.pure ⟨[], .nil, rfl⟩
  | none :: elements => by
      rw [bindElements]
      exact (bindElements_binds path (index + 1) bindings items.tail before elements).mono
        fun _ _ collected => collected.mono fun _ => .hole
  | some element :: elements => by
      have others := fun bindings middle =>
        bindElements_binds path (index + 1) bindings items.tail middle elements
      have first := fun path value => bind_binds path bindings value before element
      cases element with
      | rest _ argument =>
          have taken := fun path value middle => bind_binds path bindings value middle argument
          rw [bindElements]
          apply Ensures.bind
          intro array middle creates
          apply Ensures.bind
          intro _ last run
          rcases taken _ array middle _ last run with ⟨bound, binds, rfl⟩
          exact (others _ last).mono fun _ _ collected =>
            collected.append fun _ => .rest creates binds
      | _ =>
          rw [bindElements_some _ _ _ _ _ _ _ (by simp)]
          apply Ensures.bind
          intro _ last run
          rcases first _ _ _ last run with ⟨bound, binds, rfl⟩
          exact (others _ last).mono fun _ _ collected =>
            collected.append fun _ => .element (by simp) binds

theorem bindProperties_binds (path : Path) (index : Nat) (bindings : Record) (value : Value)
    (taken : List String) (before : World) : ∀ properties : List PatternProperty,
      Ensures (bindProperties context path index bindings value taken properties) before
        (Collected bindings
          (BindsProperties context path index bindings value taken properties before))
  | [] => by
      rw [bindProperties]
      exact Ensures.pure ⟨[], .nil, rfl⟩
  | .field loc key pattern _ :: properties => by
      rw [bindProperties]
      apply Ensures.bind
      intro name keyed found
      apply Ensures.bind
      intro item read reads
      apply Ensures.bind
      intro _ last run
      rcases bind_binds _ bindings item read pattern _ last run with ⟨bound, binds, rfl⟩
      exact (bindProperties_binds path (index + 1) _ value (name :: taken) last properties).mono
        fun _ _ collected => collected.append fun _ => .field found reads binds
  | .rest _ argument :: properties => by
      rw [bindProperties]
      apply Ensures.bind
      intro entries state inspected
      cases inspected
      apply Ensures.bind
      intro object middle creates
      apply Ensures.bind
      intro _ last run
      rcases bind_binds _ bindings object middle argument _ last run with ⟨bound, binds, rfl⟩
      exact (bindProperties_binds path (index + 1) _ value taken last properties).mono
        fun _ _ collected => collected.append fun _ => .rest creates binds

end

end

/-! ## Every such run is a success -/

theorem spreadValues_run {world : World} {value : Value} {items : List Value}
    (iterates : world.heap.iterate value = .ok items) (position : Position) :
    spreadValues position value world = .ok items world := by
  have evaluated : spreadValues position value world =
      anchored position (ofExcept (world.heap.iterate value)) world := rfl
  rw [evaluated, iterates]
  rfl

theorem not_isNullish_of_iterate {heap : Heap} {value : Value} {items : List Value}
    (iterates : heap.iterate value = .ok items) : ¬ value.isNullish = true := by
  intro nullish
  cases value with
  | undefined => cases iterates
  | null => cases iterates
  | _ => cases nullish

mutual

theorem Binds.run {context : Context} {path : Path} {bindings : Record} {value : Value}
    {before after : World} {bound : List (String × Value)} : ∀ {pattern : Pattern},
      Binds context path bindings value pattern before bound after →
        bind context path bindings value pattern before = .ok (bindings.setAll bound) after
  | _, .ident => by
      rw [bind]
      rfl
  | _, .rest binds => by
      rw [bind]
      exact binds.run
  | _, .withDefault supplied binds => by
      rw [bind_withDefault, bind_run supplied]
      exact binds.run
  | _, .array iterates binds => by
      rw [bind, if_neg (not_isNullish_of_iterate iterates),
        bind_run (spreadValues_run iterates _)]
      exact binds.run
  | _, .object present binds => by
      rw [bind, if_neg (Bool.eq_false_iff.mp present)]
      exact binds.run

theorem BindsElements.run {context : Context} {path : Path} {index : Nat} {bindings : Record}
    {items : List Value} {before after : World} {bound : List (String × Value)} :
    ∀ {elements : List (Option Pattern)},
      BindsElements context path index bindings items elements before bound after →
        bindElements context path index bindings items elements before =
          .ok (bindings.setAll bound) after
  | _, .nil => by
      rw [bindElements]
      rfl
  | _, .hole later => by
      rw [bindElements]
      exact later.run
  | _, .rest creates binds later => by
      rw [bindElements, bind_run creates, bind_run binds.run, later.run, Record.setAll_append]
  | _, .element notRest binds later => by
      rw [bindElements_some _ _ _ _ _ _ _ notRest, bind_run binds.run, later.run,
        Record.setAll_append]

theorem BindsProperties.run {context : Context} {path : Path} {index : Nat} {bindings : Record}
    {value : Value} {taken : List String} {before after : World} {bound : List (String × Value)} :
    ∀ {properties : List PatternProperty},
      BindsProperties context path index bindings value taken properties before bound after →
        bindProperties context path index bindings value taken properties before =
          .ok (bindings.setAll bound) after
  | _, .nil => by
      rw [bindProperties]
      rfl
  | _, .field found reads binds later => by
      rw [bindProperties, bind_run found, bind_run reads, bind_run binds.run, later.run,
        Record.setAll_append]
  | _, .rest creates binds later => by
      have inspected : ∀ value, inspect (fun heap => heap.ownEntries value) before =
          .ok (before.heap.ownEntries value) before := fun _ => rfl
      rw [bindProperties, bind_run (inspected _), bind_run creates, bind_run binds.run, later.run,
        Record.setAll_append]

end

/-- A pattern succeeds if and only if it has a run that binds its names. -/
theorem bind_eq_ok_iff {context : Context} {path : Path} {bindings : Record} {value : Value}
    {pattern : Pattern} {before after : World} {record : Record} :
    bind context path bindings value pattern before = .ok record after ↔
      ∃ bound, Binds context path bindings value pattern before bound after ∧
        record = bindings.setAll bound := by
  constructor
  · exact bind_binds context path bindings value before pattern record after
  · intro collected
    rcases collected with ⟨bound, binds, rfl⟩
    exact binds.run

/-- The keys of the record are those before, and then the names of the pattern that are new, in
the order of their first occurrence. -/
theorem bind_keys (context : Context) (path : Path) (bindings : Record) (value : Value)
    (pattern : Pattern) (before : World) :
    Ensures (bind context path bindings value pattern) before fun record _ =>
      record.keys = bindings.keys ++ (pattern.names.filter (· ∉ bindings.keys)).eraseDups := by
  intro record after run
  rcases bind_binds context path bindings value before pattern record after run with
    ⟨bound, binds, rfl⟩
  rw [Record.keys_setAll, binds.names]

end Eval

end ExprScript
