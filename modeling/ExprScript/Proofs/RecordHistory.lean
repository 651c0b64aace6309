import ExprScript.Eval.Library
import ExprScript.Proofs.Effect.Heap
import ExprScript.Proofs.Outcome
import ExprScript.Proofs.RecordEntries

/-! # Objects are maps in the order of insertion

Whatever is done to the properties of an object, it has those of a finite map that undergoes the
same changes. Its keys are in the order in which they were inserted, and of several insertions of
a key the latest counts: an overwritten key keeps its place, and a key that is deleted and set
again moves to the end. An object literal does such things one after the other, so that the same
holds of its object.
-/

namespace ExprScript

namespace Record

/-! ## Changes and operations -/

inductive Change where
  | set (key : String) (value : Value)
  | delete (key : String)

def Change.apply (record : Record) : Change → Record
  | .set key value => record.set key value
  | .delete key => (record.delete key).1

/-- What can be done to an object at once. -/
inductive Operation where
  | set (key : String) (value : Value)
  | delete (key : String)
  /-- Entries are set in their order, as when an object is built from them. -/
  | setAll (entries : List (String × Value))
  /-- The properties of a value are copied. -/
  | spread (heap : Heap) (source : Value)

namespace Operation

def apply (record : Record) : Operation → Record
  | .set key value => record.set key value
  | .delete key => (record.delete key).1
  | .setAll entries => record.setAll entries
  | .spread heap source => record.setAll (heap.ownEntries source)

def changes : Operation → List Change
  | .set key value => [.set key value]
  | .delete key => [.delete key]
  | .setAll entries => entries.map fun (key, value) => .set key value
  | .spread heap source => (heap.ownEntries source).map fun (key, value) => .set key value

theorem apply_eq_foldl (record : Record) (operation : Operation) :
    operation.apply record = operation.changes.foldl Change.apply record := by
  cases operation with
  | set | delete => rfl
  | setAll | spread =>
      rw [changes, List.foldl_map]
      rfl

end Operation

/-- The object after some operations, the first of which finds no properties. -/
def run (creator : Option FunctionRef) (operations : List Operation) : Record :=
  operations.foldl Operation.apply { constructor? := creator }

theorem foldl_apply_eq (record : Record) (operations : List Operation) :
    operations.foldl Operation.apply record =
      (operations.flatMap Operation.changes).foldl Change.apply record := by
  induction operations generalizing record with
  | nil => rfl
  | cons operation operations induction =>
      rw [List.foldl_cons, induction, List.flatMap_cons, List.foldl_append,
        Operation.apply_eq_foldl]

/-! ## The finite map and the times of insertion -/

def Change.applyToMap (map : Finmap fun _ : String => Value) :
    Change → Finmap fun _ : String => Value
  | .set key value => map.insert key value
  | .delete key => map.erase key

def mapAfter (changes : List Change) : Finmap fun _ : String => Value :=
  changes.foldl Change.applyToMap ∅

def InsertedAt (changes : List Change) (key : String) (time : Nat) : Prop :=
  (∃ value, changes[time]? = some (.set key value)) ∧ key ∉ mapAfter (changes.take time)

def LastInserted (changes : List Change) (key : String) (time : Nat) : Prop :=
  IsGreatest {time | InsertedAt changes key time} time

def InsertedBefore (changes : List Change) (first second : String) : Prop :=
  ∃ time later, LastInserted changes first time ∧ LastInserted changes second later ∧ time < later

theorem mapAfter_concat (changes : List Change) (change : Change) :
    mapAfter (changes ++ [change]) = change.applyToMap (mapAfter changes) :=
  List.foldl_concat ..

theorem Change.lookup_applyToMap (map : Finmap fun _ : String => Value) (change : Change)
    (name : String) :
    (change.applyToMap map).lookup name =
      match change with
      | .set key value => if name = key then some value else map.lookup name
      | .delete key => if name = key then none else map.lookup name := by
  cases change with
  | set key value =>
      simp only [applyToMap]
      split
      · next same => exact same ▸ Finmap.lookup_insert map
      · next different => exact Finmap.lookup_insert_of_ne map different
  | delete key =>
      simp only [applyToMap]
      split
      · next same => exact same ▸ Finmap.lookup_erase name map
      · next different => exact Finmap.lookup_erase_ne different

variable {changes : List Change} {change : Change} {key : String} {time : Nat}

theorem InsertedAt.lt_length (inserted : InsertedAt changes key time) :
    time < changes.length := by
  rcases inserted.1 with ⟨value, found⟩
  exact (List.getElem?_eq_some_iff.mp found).1

theorem insertedAt_concat_iff : InsertedAt (changes ++ [change]) key time ↔
    InsertedAt changes key time ∨
      time = changes.length ∧ (∃ value, change = .set key value) ∧ key ∉ mapAfter changes := by
  rcases Nat.lt_trichotomy time changes.length with before | rfl | beyond
  · have different : time ≠ changes.length := before.ne
    simp [InsertedAt, List.getElem?_append_left before, List.take_append_of_le_length before.le,
      different]
  · have notBefore : ¬ InsertedAt changes key changes.length :=
      fun inserted => absurd inserted.lt_length (Nat.lt_irrefl _)
    simp [InsertedAt]
  · have notBefore : ¬ InsertedAt changes key time :=
      fun inserted => absurd inserted.lt_length beyond.not_gt
    have notInside : ¬ InsertedAt (changes ++ [change]) key time := by
      intro inserted
      have inside := inserted.lt_length
      rw [List.length_append, List.length_singleton] at inside
      omega
    simp [notBefore, notInside, beyond.ne']

theorem LastInserted.concat (last : LastInserted changes key time)
    (old : (∃ value, change = .set key value) → key ∈ mapAfter changes) :
    LastInserted (changes ++ [change]) key time := by
  have same : {time | InsertedAt (changes ++ [change]) key time} =
      {time | InsertedAt changes key time} := by
    ext time
    simp only [Set.mem_ofPred_eq, insertedAt_concat_iff, or_iff_left_iff_imp]
    exact fun ⟨_, sets, absent⟩ => absurd (old sets) absent
  rw [LastInserted, same]
  exact last

theorem lastInserted_new (value : Value) (absent : key ∉ mapAfter changes) :
    LastInserted (changes ++ [.set key value]) key changes.length := by
  constructor
  · exact insertedAt_concat_iff.mpr (.inr ⟨rfl, ⟨value, rfl⟩, absent⟩)
  · intro time inserted
    have inside := inserted.lt_length
    rw [List.length_append, List.length_singleton] at inside
    omega

theorem InsertedBefore.concat {first second : String}
    (ordered : InsertedBefore changes first second)
    (oldFirst : (∃ value, change = .set first value) → first ∈ mapAfter changes)
    (oldSecond : (∃ value, change = .set second value) → second ∈ mapAfter changes) :
    InsertedBefore (changes ++ [change]) first second := by
  rcases ordered with ⟨time, later, isFirst, isSecond, less⟩
  exact ⟨time, later, isFirst.concat oldFirst, isSecond.concat oldSecond, less⟩

/-! ## What an object and the finite map have in common -/

/-- The object has the properties of the finite map, in the order of insertion. -/
structure Follows (record : Record) (changes : List Change) : Prop where
  lookup : ∀ key, record.get? key = (mapAfter changes).lookup key
  inserted : ∀ key ∈ record.keys, ∃ time, LastInserted changes key time
  ordered : record.keys.Pairwise (InsertedBefore changes)

namespace Follows

variable {record : Record}

theorem empty (creator : Option FunctionRef) : Follows { constructor? := creator } [] where
  lookup _ := rfl
  inserted _ := nofun
  ordered := .nil

theorem has_iff (follows : record.Follows changes) (key : String) :
    record.has key = true ↔ key ∈ mapAfter changes := by
  rw [has, follows.lookup]
  exact Finmap.lookup_isSome

theorem mem_keys_iff_mem (follows : record.Follows changes) (key : String) :
    key ∈ record.keys ↔ key ∈ mapAfter changes :=
  (record.mem_keys_iff key).trans (follows.has_iff key)

theorem lookup_concat (follows : record.Follows changes) (change : Change) (name : String) :
    (change.apply record).get? name = (mapAfter (changes ++ [change])).lookup name := by
  rw [mapAfter_concat, Change.lookup_applyToMap, ← follows.lookup]
  cases change with
  | set key value => exact get?_set record key value name
  | delete key => exact get?_delete record key name

/-- The keys stay as they are, or some are taken out. -/
theorem of_sublist {after : Record} (follows : record.Follows changes)
    (lookup : ∀ name, after.get? name = (mapAfter (changes ++ [change])).lookup name)
    (sublist : after.keys.Sublist record.keys)
    (old : ∀ key value, change = .set key value → key ∈ mapAfter changes) :
    after.Follows (changes ++ [change]) where
  lookup := lookup
  inserted key member := by
    rcases follows.inserted key (sublist.subset member) with ⟨time, last⟩
    exact ⟨time, last.concat fun ⟨value, sets⟩ => old key value sets⟩
  ordered := (follows.ordered.sublist sublist).imp fun ordered =>
    ordered.concat (fun ⟨value, sets⟩ => old _ value sets) fun ⟨value, sets⟩ => old _ value sets

theorem insert (follows : record.Follows changes) (value : Value)
    (absent : key ∉ mapAfter changes) :
    (record.set key value).Follows (changes ++ [.set key value]) := by
  have new : ¬ record.has key = true := fun present => absent ((follows.has_iff key).mp present)
  have keys : (record.set key value).keys = record.keys ++ [key] := by
    rw [keys_set, if_neg new]
  have last := lastInserted_new value absent
  have old : ∀ name ∈ record.keys, (∃ other, Change.set key value = .set name other) →
      name ∈ mapAfter changes :=
    fun name member _ => (follows.mem_keys_iff_mem name).mp member
  refine ⟨follows.lookup_concat (.set key value), ?_, ?_⟩
  · intro name member
    rw [keys, List.mem_append, List.mem_singleton] at member
    rcases member with member | rfl
    · rcases follows.inserted name member with ⟨time, before⟩
      exact ⟨time, before.concat (old name member)⟩
    · exact ⟨_, last⟩
  · rw [keys, List.pairwise_append]
    refine ⟨?_, List.pairwise_singleton _ _, ?_⟩
    · exact follows.ordered.imp_of_mem fun first second ordered =>
        ordered.concat (old _ first) (old _ second)
    · intro name member other isNew
      cases List.mem_singleton.mp isNew
      rcases follows.inserted name member with ⟨time, before⟩
      exact ⟨time, _, before.concat (old name member), last, before.1.lt_length⟩

theorem concat (follows : record.Follows changes) (change : Change) :
    (change.apply record).Follows (changes ++ [change]) := by
  cases change with
  | set key value =>
      by_cases present : key ∈ mapAfter changes
      · refine follows.of_sublist (follows.lookup_concat _) ?_ ?_
        · rw [Change.apply, keys_set, if_pos ((follows.has_iff key).mpr present)]
        · intro name other same
          cases same
          exact present
      · exact follows.insert value present
  | delete key =>
      refine follows.of_sublist (follows.lookup_concat _) ?_ nofun
      rw [Change.apply, keys_delete]
      exact List.erase_sublist

theorem append (follows : record.Follows changes) (more : List Change) :
    (more.foldl Change.apply record).Follows (changes ++ more) := by
  induction more generalizing record changes with
  | nil => rwa [List.append_nil]
  | cons change more induction =>
      rw [List.foldl_cons, List.append_cons]
      exact induction (follows.concat change)

theorem run (creator : Option FunctionRef) (operations : List Operation) :
    (run creator operations).Follows (operations.flatMap Operation.changes) := by
  rw [Record.run, foldl_apply_eq]
  exact (empty creator).append _

end Follows

end Record

/-! ## Object literals -/

/-- What the properties of an object literal do to the object, while they are evaluated one after
the other. A field sets the key that it has to the value that it has, and a spread copies from its
value as the heap is then. -/
inductive Property.Perform (context : Context) (path : Path) :
    Nat → World → List Property → List Record.Operation → World → Prop
  | nil (index : Nat) (world : World) : Perform context path index world [] [] world
  | field {index : Nat} {loc : Span} {key : PropertyKey} {expr : Expr} {shorthand : Bool}
      {name : String} {value : Value} {before middle later after : World}
      {properties : List Property} {operations : List Record.Operation}
      (named : Eval.evalPropertyKey context (.key :: .item index :: path) key before =
        .ok name middle)
      (evaluated : Eval.valueOf
        (Eval.eval context .value (.value :: .item index :: path) expr) middle = .ok value later) :
      Perform context path (index + 1) later properties operations after →
      Perform context path index before (.field loc key expr shorthand :: properties)
        (.set name value :: operations) after
  | spread {index : Nat} {loc : Span} {argument : Expr} {value : Value}
      {before middle after : World} {properties : List Property}
      {operations : List Record.Operation}
      (evaluated : Eval.valueOf
        (Eval.eval context .value (.inner :: .item index :: path) argument) before =
          .ok value middle) :
      Perform context path (index + 1) middle properties operations after →
      Perform context path index before (.spread loc argument :: properties)
        (.spread middle.heap value :: operations) after

namespace Eval

theorem evalProperties_performs (context : Context) (path : Path) (index : Nat) (record : Record)
    (properties : List Property) (before : World) :
    Ensures (evalProperties context path index record properties) before fun built after =>
      ∃ operations, Property.Perform context path index before properties operations after ∧
        built = operations.foldl Record.Operation.apply record := by
  induction properties generalizing index record before with
  | nil =>
      rw [evalProperties]
      exact Ensures.pure ⟨[], .nil index before, rfl⟩
  | cons property properties induction =>
      cases property with
      | field loc key expr shorthand =>
          rw [evalProperties]
          apply Ensures.bind
          intro name middle named
          apply Ensures.bind
          intro value later evaluated built after run
          rcases induction (index + 1) (record.set name value) later built after run with
            ⟨operations, perform, same⟩
          exact ⟨.set name value :: operations, .field named evaluated perform, same⟩
      | spread loc argument =>
          rw [evalProperties]
          apply Ensures.bind
          intro value middle evaluated
          apply Ensures.bind
          intro entries later inspected built after run
          cases inspected
          rcases induction (index + 1) _ middle built after run with ⟨operations, perform, same⟩
          exact ⟨.spread middle.heap value :: operations, .spread evaluated perform, same⟩

/-- The object of a literal is what its properties make of an empty one. -/
theorem eval_object_performs (context : Context) (use : Use) (path : Path) (loc : Span)
    (properties : List Property) (before : World) :
    Ensures (eval context use path (.object loc properties)) before fun outcome after =>
      ∃ ref operations last, outcome = plain (.object ref) ∧
        Property.Perform context path 0 before properties operations last ∧
        newObject (Record.run none operations) last = .ok (.object ref) after ∧
        after.heap.object ref = Record.run none operations := by
  rw [eval]
  apply Ensures.bind
  intro record middle built
  apply Ensures.bind
  intro object after created
  apply Ensures.pure
  cases created
  rcases evalProperties_performs context path 0 {} properties before record middle built with
    ⟨operations, perform, rfl⟩
  have stored := Heap.object_newObject middle.heap (Record.run none operations)
    ⟨middle.heap.objects.size⟩
  rw [if_pos rfl] at stored
  exact ⟨_, operations, middle, rfl, perform, rfl, stored⟩

end Eval

/-! ## The order of insertion -/

/-- After every sequence of operations an object is the finite map that the sequence leads to, and
its keys are in the order of their latest insertion. To overwrite a key keeps its place, and to
delete it and set it again moves it to the end. An object that is built from entries is such a
sequence, and so is the object of a literal, with the spreads in it. -/
theorem Record.run_insertionOrdered :
    (∀ (creator : Option FunctionRef) (operations : List Operation),
      let record := run creator operations
      let changes := operations.flatMap Operation.changes
      let map := mapAfter changes
      record.keys.Nodup ∧
      (∀ key, record.get? key = map.lookup key ∧
        record.get key = (map.lookup key).getD .undefined ∧ (record.has key = true ↔ key ∈ map)) ∧
      (∀ key, key ∈ record.keys ↔ key ∈ map) ∧
      record.keys.Pairwise (InsertedBefore changes) ∧
      (∀ key ∈ record.keys, ∃ time, LastInserted changes key time) ∧
      (∀ key value, (record.set key value).keys =
        if key ∈ map then record.keys else record.keys ++ [key]) ∧
      ∀ key, ((record.delete key).2 = true ↔ key ∈ map) ∧
        (record.delete key).1.keys = record.keys.erase key ∧
        ∀ value, ((record.delete key).1.set key value).keys = record.keys.erase key ++ [key]) ∧
    (∀ entries, ofEntries entries = run none [.setAll entries]) ∧
    ∀ (context : Context) (use : Use) (path : Path) (loc : Span) (properties : List Property)
      (before after : World) (outcome : Outcome),
      Eval.eval context use path (.object loc properties) before = .ok outcome after →
        ∃ ref operations last, outcome = Eval.plain (.object ref) ∧
          Property.Perform context path 0 before properties operations last ∧
          Eval.newObject (run none operations) last = .ok (.object ref) after ∧
          after.heap.object ref = run none operations := by
  refine ⟨?_, fun _ => rfl, fun context use path loc properties before after outcome evaluated =>
    Eval.eval_object_performs context use path loc properties before outcome after evaluated⟩
  intro creator operations record changes map
  have follows := Follows.run creator operations
  have isMap : ∀ key, record.get? key = map.lookup key := follows.lookup
  refine ⟨record.nodup_keys, fun key => ⟨isMap key, ?_, follows.has_iff key⟩,
    follows.mem_keys_iff_mem, follows.ordered, follows.inserted, fun key value => ?_,
    fun key => ⟨?_, record.keys_delete key, fun value => ?_⟩⟩
  · rw [Record.get, isMap]
  · rw [keys_set]
    exact if_congr (follows.has_iff key) rfl rfl
  · rw [delete_eq_has]
    exact follows.has_iff key
  · have gone : ¬ (record.delete key).1.has key = true := by
      rw [has, get?_delete, if_pos rfl]
      exact Bool.false_ne_true
    rw [keys_set, if_neg gone, keys_delete]

/-- A key that is deleted and set again comes last. -/
example : (Record.run none [.setAll [("a", .null), ("b", .null), ("c", .null)],
    .set "b" .undefined, .delete "a", .set "a" .null]).keys = ["b", "c", "a"] := by decide

/-- The literal `{a: null, ...o}` has `a` first, although the object `o` has it last. -/
theorem Record.run_insertionOrdered_spread :
    let world : World := { heap := { objects :=
      #[.ofEntries [("o", .object ⟨1⟩)], .ofEntries [("b", .null), ("a", .undefined)]] } }
    let context := Eval.rootContext Library.host { inner := ⟨0⟩ } false 0
    let properties : List Property :=
      [.field {} (.name { name := "a" }) (.null {}) false, .spread {} (.ident { name := "o" })]
    ∃ after ref operations,
      Eval.eval context .value [] (.object {} properties) world =
        .ok (Eval.plain (.object ref)) after ∧
      after.heap.object ref = run none operations ∧ (run none operations).keys = ["a", "b"] ∧
      InsertedBefore (operations.flatMap Operation.changes) "a" "b" := by
  intro world context properties
  rcases run_insertionOrdered with ⟨runs, -, literals⟩
  have evaluated : ∃ after, Eval.eval context .value [] (.object {} properties) world =
      .ok (Eval.plain (.object ⟨2⟩)) after ∧ (after.heap.object ⟨2⟩).keys = ["a", "b"] :=
    ⟨_, rfl, by decide⟩
  rcases evaluated with ⟨after, evaluated, keys⟩
  rcases literals _ _ _ _ _ _ _ _ evaluated with ⟨ref, operations, -, same, -, -, made⟩
  cases same
  rw [made] at keys
  have ordered := (runs none operations).2.2.2.1
  rw [keys] at ordered
  exact ⟨after, ⟨2⟩, operations, evaluated, made, keys, List.rel_of_pairwise_cons ordered (.head _)⟩

end ExprScript
