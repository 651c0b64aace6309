import ExprScript.Proofs.Binding.Rest
import ExprScript.Proofs.Discipline.Call

/-! # Reading, asking for and listing properties

A property is read, asked for and listed by three routines. Each of them sorts keys into indices,
the length and names in its own way; they meet in the indices that keys are written as. On
every heap that evaluation can build they agree: what is listed is there and has the listed value,
and what is not there reads as `undefined`.
-/

namespace ExprScript

/-! ## Reachable heaps -/

/-- The heaps that are built from nothing by taking new places, by operations on arrays and by
writing objects. -/
inductive Heap.Reachable : Heap → Prop where
  | empty : Reachable {}
  | newArray {heap : Heap} {store : ArrayStore} :
      Reachable heap → store.Reachable → Reachable (heap.newArray store).2
  | newObject {heap : Heap} (record : Record) :
      Reachable heap → Reachable (heap.newObject record).2
  | newFunction {heap : Heap} (function : FunctionValue) :
      Reachable heap → Reachable (heap.newFunction function).2
  | newRegExp {heap : Heap} (regExp : RegExpValue) :
      Reachable heap → Reachable (heap.newRegExp regExp).2
  | setArray {heap : Heap} {ref : ArrayRef} {store : ArrayStore}
      (operation : ArrayStore.Operation) :
      Reachable heap → operation.apply (heap.array ref) = .ok store →
        Reachable (heap.setArray ref store)
  | setObject {heap : Heap} (ref : ObjectRef) (record : Record) :
      Reachable heap → Reachable (heap.setObject ref record)

theorem ArrayStore.Reachable.apply {store after : ArrayStore} (reachable : store.Reachable)
    {operation : Operation} (applied : operation.apply store = .ok after) : after.Reachable := by
  cases operation with
  | set index value => exact reachable.set applied
  | push value =>
      rcases pushed : store.push value with error | ⟨extended, length⟩
      · rw [Operation.apply, pushed] at applied
        cases applied
      · rw [Operation.apply, pushed] at applied
        cases applied
        exact reachable.push pushed
  | setLength length => exact reachable.setLength applied
  | setNamed key value =>
      cases applied
      exact reachable.setNamed key value

namespace Heap.Reachable

variable {heap after : Heap}

theorem array (reachable : heap.Reachable) (ref : ArrayRef) : (heap.array ref).Reachable := by
  induction reachable with
  | empty => exact .ofList []
  | newArray _ built induction =>
      rw [array_newArray]
      split
      · exact built
      · exact induction
  | setArray operation _ applied induction =>
      rw [array_setArray]
      split
      · next same => exact induction.apply (same.1 ▸ applied)
      · exact induction
  | _ => assumption

theorem setVariable (reachable : heap.Reachable) (frame : ObjectRef) (name : String)
    (value : Value) : (heap.setVariable frame name value).Reachable :=
  reachable.setObject frame _

theorem setProperty (reachable : heap.Reachable) {object : Value} {key : String} {value : Value}
    (run : heap.setProperty object key value = .ok after) : after.Reachable := by
  cases object with
  | undefined => cases run
  | null => cases run
  | array ref =>
      simp only [Heap.setProperty, bind, Except.bind] at run
      split at run
      · cases run
      · next store written =>
          cases run
          unfold setArrayProperty at written
          split at written
          · split at written
            · next length _ => exact reachable.setArray (.setLength length) written
            · cases written
          · split at written
            · next index _ => exact reachable.setArray (.set index value) written
            · exact reachable.setArray (.setNamed key value) written
  | object ref =>
      cases run
      exact reachable.setObject ref _
  | _ =>
      cases run
      exact reachable

end Heap.Reachable

/-! ## Evaluation keeps to reachable heaps -/

/-- Code may do everything, as long as the heap is reachable. -/
def Discipline.reachable : Discipline where
  permission := { write := True, call := True }
  Shows _ := True
  Admits _ := True
  Owns _ := True
  Recalls _ := True
  Holds world := world.heap.Reachable
  Leads _ after := after.heap.Reachable
  refl := id
  trans _ second := second
  holds := id
  shows_plain _ _ := trivial
  shows_stored _ _ _ := trivial
  shows_variable _ _ _ := trivial
  shows_recalled _ _ _ := trivial
  admits_push _ _ := trivial
  newArray holds built _ := ⟨holds.newArray built, trivial⟩
  newObject holds _ := ⟨holds.newObject _, trivial⟩
  newFunction holds _ := holds.newFunction _
  newRegExp regExp holds := holds.newRegExp regExp
  setProperty _ holds _ _ run := holds.setProperty run
  assign name _ holds _ _ := holds.setVariable _ name _
  remember _ _ _ leads _ := leads

theorem Discipline.reachable_serves : Discipline.reachable.Serves where
  full := ⟨trivial, trivial⟩
  owns _ := trivial
  recalls := trivial
  functions _ _ _ _ := trivial
  setVariable name holds _ _ := holds.setVariable _ name _
  note _ holds := holds

/-- The functions of the host lead from reachable heaps to reachable heaps, if the calls that they
make do. -/
abbrev Host.KeepsReachable (host : Host) : Prop := host.Submits .reachable

/-- Whether it has a value or fails, an evaluation leads from a reachable heap to a
reachable heap. -/
theorem Eval.evaluate_reachable {host : Host} (keeps : host.KeepsReachable) (tree : Nat)
    (expr : Expr) (scope : Scope) (useMemo : Bool) {world : World}
    (reachable : world.heap.Reachable) :
    (worldAfter (evaluate host tree expr scope useMemo world)).heap.Reachable := by
  have ready : (rootContext host scope useMemo tree).Abides .reachable :=
    ⟨trivial, trivial, trivial,
      fun _ => callFunction_submits Discipline.reachable_serves keeps callDepth⟩
  have allowed := expr.allowed Discipline.reachable_serves.full
  exact (eval_obeys _ ready .value [] expr allowed).valueOf.leads reachable

/-! ## Keys that are indices -/

theorem arrayIndex?_toString_eq (index : Nat) :
    arrayIndex? (toString index) = if index < 0xffffffff then some index else none := by
  have digits : (toString index : String).toList = Nat.toDigits 10 index := by
    rw [Nat.toString_eq_repr, Nat.toList_repr]
  have all := Number.allDigits_toDigits index
  have read := Number.digitsToNat_toDigits index
  have unpadded : ∀ first rest, Nat.toDigits 10 index = first :: rest →
      (first == '0' && !rest.isEmpty) = false := by
    intro first rest equal
    rcases Nat.eq_zero_or_pos index with rfl | positive
    · cases equal
      rfl
    · have head := Number.head_toDigits positive
      rw [equal] at head
      have notZero : first ≠ '0' := fun same => head (congrArg some same)
      rw [beq_false_of_ne notZero, Bool.false_and]
  unfold arrayIndex?
  rw [digits]
  cases written : Nat.toDigits 10 index with
  | nil => exact absurd written Nat.toDigits_ne_nil
  | cons first rest =>
      rw [written] at all read
      have isDigits : (first :: rest).all Char.isDigit = true := List.all_eq_true.mpr all
      simp only [unpadded first rest written, isDigits, read, Bool.not_true, Bool.false_eq_true,
        if_false]

theorem arrayIndex?_toString {index : Nat} (small : index < 0xffffffff) :
    arrayIndex? (toString index) = some index := by
  rw [arrayIndex?_toString_eq, if_pos small]

theorem toString_ne_length (index : Nat) : toString index ≠ "length" := by
  intro equal
  have digits : Nat.toDigits 10 index = "length".toList := by
    rw [← Nat.toList_repr, ← Nat.toString_eq_repr, equal]
  have isDigit := Number.allDigits_toDigits index 'l' (digits ▸ by decide)
  exact absurd isDigit (by decide)

theorem ArrayStore.Layout.lt_length {store : ArrayStore} (layout : store.Layout) {index : Nat}
    {value : Value} (found : store.get? index = some value) : index < store.length := by
  rcases (Layout.mem_entries_iff index value).mp
    ((layout.mem_entries_iff_get? index value).mpr found) with near | far
  · exact (Array.getElem?_eq_some_iff.mp near).1.trans_le layout.dense_le
  · exact (layout.apart _ far).2

namespace Heap

variable {heap : Heap}

/-! ## What is listed is there -/

theorem arrayProperty_toString (store : ArrayStore) {index : Nat} (small : index < 0xffffffff) :
    arrayProperty store (toString index) = store.get index := by
  unfold arrayProperty
  rw [if_neg (by simpa using toString_ne_length index), arrayIndex?_toString small]

theorem stringProperty_toString (text : String) {index : Nat} (small : index < 0xffffffff) :
    stringProperty text (toString index) =
      ((Text.units text)[index]?.map fun code => Value.string (Text.ofUnit code)).getD
        .undefined := by
  unfold stringProperty
  rw [if_neg (by simpa using toString_ne_length index), arrayIndex?_toString small,
    Option.bind_some]
  cases (Text.units text)[index]? <;> rfl

theorem stringProperty_of_le (text : String) {index : Nat} (large : 0xffffffff ≤ index) :
    stringProperty text (toString index) = .undefined := by
  unfold stringProperty
  rw [if_neg (by simpa using toString_ne_length index), arrayIndex?_toString_eq,
    if_neg (Nat.not_lt.mpr large)]
  rfl

theorem mem_ownEntries_array {ref : ArrayRef} (layout : (heap.array ref).Layout) {key : String}
    {value : Value} (listed : (key, value) ∈ heap.ownEntries (.array ref)) :
    ∃ index : Nat, key = toString index ∧ (heap.array ref).get? index = some value := by
  rcases List.mem_map.mp listed with ⟨⟨index, element⟩, member, equal⟩
  cases equal
  exact ⟨index, rfl, (layout.mem_entries_iff_get? index value).mp member⟩

theorem getElem?_ownEntries_string (text : String) (index : Nat) :
    (heap.ownEntries (.string text))[index]? =
      (Text.units text)[index]?.map fun code =>
        (toString index, Value.string (Text.ofUnit code)) := by
  simp only [ownEntries, List.getElem?_map, List.getElem?_zipIdx, Option.map_map, Nat.zero_add]
  rfl

/-- A listed property of an array or an object is there and has the listed value. -/
theorem listed_of_layout {value : Value} (notText : ∀ text, value ≠ .string text)
    (layout : ∀ ref, value = .array ref → (heap.array ref).Layout)
    (short : ∀ ref, value = .array ref → (heap.array ref).length < 0xffffffff)
    {key : String} {part : Value} (listed : (key, part) ∈ heap.ownEntries value) :
    heap.hasProperty value key = .ok true ∧ heap.getProperty value key = .ok part := by
  cases value with
  | string text => exact absurd rfl (notText text)
  | object ref =>
      have found := (Record.mem_entries_iff _ _ _).mp listed
      simp [hasProperty, getProperty, Record.has, Record.get, found]
  | array ref =>
      rcases mem_ownEntries_array (layout ref rfl) listed with ⟨index, rfl, found⟩
      have stored := (ArrayStore.Layout.hasIndex_iff index).mpr ⟨part, found⟩
      have small := ((layout ref rfl).lt_length found).trans (short ref rfl)
      constructor
      · simp only [hasProperty, arrayIndex?_toString small, Option.any_some, stored,
          Bool.or_true, Bool.true_or]
      · rw [getProperty, arrayProperty_toString _ small, ArrayStore.get, found]
        rfl
  | _ => cases listed

theorem getProperty_of_not_has {value : Value} {key : String}
    (missing : heap.hasProperty value key = .ok false) :
    heap.getProperty value key = .ok .undefined := by
  cases value with
  | object ref =>
      simp only [hasProperty, Except.ok.injEq, Record.has, Option.isSome_eq_false_iff,
        Option.isNone_iff_eq_none] at missing
      rw [getProperty, Record.get, missing]
      rfl
  | array ref =>
      simp only [hasProperty, Except.ok.injEq, Bool.or_eq_false_iff, ArrayStore.hasNamed,
        Option.isSome_eq_false_iff, Option.isNone_iff_eq_none] at missing
      rcases missing with ⟨⟨notLength, notIndex⟩, notNamed⟩
      rw [getProperty, arrayProperty, notLength, notNamed]
      cases isIndex : arrayIndex? key with
      | none => rfl
      | some index =>
          rw [isIndex, Option.any_some] at notIndex
          have absent : (heap.array ref).get? index = none := by
            cases found : (heap.array ref).get? index with
            | none => rfl
            | some part =>
                have stored := (ArrayStore.Layout.hasIndex_iff index).mpr ⟨part, found⟩
                rw [stored] at notIndex
                cases notIndex
          simp only [ArrayStore.get, absent]
          rfl
  | function ref =>
      simp only [hasProperty, Except.ok.injEq, Bool.or_eq_false_iff] at missing
      rw [getProperty, functionProperty, missing.1, missing.2]
      rfl
  | regExp ref =>
      simp only [hasProperty, Except.ok.injEq, Bool.or_eq_false_iff] at missing
      rw [getProperty, regExpProperty, missing.1.1, missing.1.2, missing.2]
      rfl
  | _ => cases missing

/-- On every reachable heap the views of the properties of a value agree. The keys that an array
or an object lists are distinct, and each of them is there and has the listed value; a property
that is not there reads as `undefined`; and a text lists its indices, with the units that are
read there. An index is a key up to the greatest word of 32 bits, so that arrays are to be
shorter than that, and the units of a text are read up to there and not from there on. Evaluation
leads from reachable heaps to reachable heaps. -/
theorem Reachable.views_agree (reachable : heap.Reachable) :
    (∀ value, (∀ text, value ≠ .string text) →
      (∀ ref, value = .array ref → (heap.array ref).length < 0xffffffff) →
        ((heap.ownEntries value).map (·.1)).Nodup ∧
        ∀ key part, (key, part) ∈ heap.ownEntries value →
          heap.hasProperty value key = .ok true ∧ heap.getProperty value key = .ok part) ∧
    (∀ value key, heap.hasProperty value key = .ok false →
      heap.getProperty value key = .ok .undefined) ∧
    (∀ text : String,
      (heap.ownEntries (.string text)).map (·.1) =
        (List.range (Text.units text).length).map toString ∧
      ∀ index key part, (heap.ownEntries (.string text))[index]? = some (key, part) →
        (index < 0xffffffff → heap.getProperty (.string text) key = .ok part) ∧
        (0xffffffff ≤ index → heap.getProperty (.string text) key = .ok .undefined)) ∧
    ∀ (host : Host) (tree : Nat) (expr : Expr) (scope : Scope) (useMemo : Bool) (world : World),
      host.KeepsReachable → world.heap = heap →
        (worldAfter (Eval.evaluate host tree expr scope useMemo world)).heap.Reachable := by
  refine ⟨?_, fun _ _ => getProperty_of_not_has, ?_, ?_⟩
  · intro value notText short
    have layout : ∀ ref, value = .array ref → (heap.array ref).Layout :=
      fun ref _ => (reachable.array ref).layout
    exact ⟨ownEntries_distinct layout,
      fun _ _ listed => listed_of_layout notText layout short listed⟩
  · intro text
    refine ⟨heap.ownEntries_string_keys text, ?_⟩
    intro index key part listed
    rw [getElem?_ownEntries_string, Option.map_eq_some_iff] at listed
    rcases listed with ⟨code, found, equal⟩
    cases equal
    constructor
    · intro small
      rw [getProperty, stringProperty_toString text small, found]
      rfl
    · intro large
      rw [getProperty, stringProperty_of_le text large]
  · intro host tree expr scope useMemo world keeps same
    exact Eval.evaluate_reachable keeps tree expr scope useMemo (same ▸ reachable)

theorem getElem?_ownEntries_letters (heap : Heap) {count index : Nat} (inside : index < count) :
    (heap.ownEntries (.string (.ofList (List.replicate count 'a'))))[index]? =
      some (toString index, .string "a") := by
  have units : Text.units (.ofList (List.replicate count 'a')) = List.replicate count 97 := by
    rw [Text.units, String.toList_ofList, List.flatMap_replicate]
    exact List.flatten_replicate_singleton
  rw [getElem?_ownEntries_string, units, List.getElem?_replicate, if_pos inside]
  rfl

/-- The last unit of a text of `2 ^ 32` units is listed, but it is not read at its key. -/
theorem Reachable.not_listed_read :
    let text := String.ofList (List.replicate (2 ^ 32) 'a')
    (({} : Heap).ownEntries (.string text))[2 ^ 32 - 1]? =
        some ("4294967295", .string "a") ∧
      ({} : Heap).getProperty (.string text) "4294967295" = .ok .undefined := by
  intro text
  have key : toString (2 ^ 32 - 1) = "4294967295" := by decide
  constructor
  · rw [getElem?_ownEntries_letters {} (by norm_num : 2 ^ 32 - 1 < 2 ^ 32), key]
  · rw [getProperty, ← key, stringProperty_of_le text (by norm_num)]

/-- An element is stored behind the dense ones, and evaluation stores another one between them. -/
theorem Reachable.views_agree_stranded :
    let heap : Heap := (({} : Heap).newArray ArrayStore.stranded).2
    let list : Value := .array ⟨0⟩
    let world : World := { heap := (heap.newObject (.ofEntries [("list", list)])).2 }
    let element : Expr :=
      .member {} (.ident { name := "list" }) (.computed (.string { value := "700" })) false
    heap.ownEntries list = [("0", .null), ("1025", .null)] ∧
      heap.hasProperty list "1025" = .ok true ∧ heap.getProperty list "1025" = .ok .null ∧
      heap.hasProperty list "700" = .ok false ∧ heap.getProperty list "700" = .ok .undefined ∧
      heap.getProperty (.string "a😀") "2" = .ok (.string "\ufffd") ∧
      (worldAfter (Eval.evaluate Library.host 0 (.assign {} .plain element (.null {}))
        { inner := ⟨0⟩ } false world)).heap.Reachable := by
  intro heap list world element
  have built : heap.Reachable := .newArray .empty ArrayStore.reachable_stranded
  have keeps : Library.host.KeepsReachable := Library.host_submits Discipline.reachable_serves
  have listed : heap.ownEntries list = [("0", .null), ("1025", .null)] := rfl
  have missing : heap.hasProperty list "700" = .ok false := rfl
  have views := built.views_agree
  have short : ∀ ref, list = .array ref → (heap.array ref).length < 0xffffffff := by
    intro ref equal
    cases (Value.array.inj equal : ⟨0⟩ = ref)
    decide
  have inside : ("1025", .null) ∈ heap.ownEntries list := by
    rw [listed]
    exact .tail _ (.head _)
  have far := (views.1 list nofun short).2 "1025" .null inside
  refine ⟨listed, far.1, far.2, missing, views.2.1 list "700" missing, ?_, ?_⟩
  · exact ((views.2.2.1 "a😀").2 2 "2" _ rfl).1 (by decide)
  · exact (built.newObject _).views_agree.2.2.2 Library.host 0 _ _ false world keeps rfl

end Heap

end ExprScript
