import ExprScript.Proofs.ArrayStore

/-! # Arrays that change in place

The operations on an array give a new store. Here the same operations run in
place: each is a sequence of small changes to one store, and one that stops keeps
the changes that it has made so far. A dense element is written at an index that
has to exist. Under the layout of the storage both forms agree, so no operation
stops in the middle.
-/

namespace ExprScript

inductive ArrayChange.Stop where
  /-- The operation is not allowed. -/
  | refused (error : Error)
  /-- A dense element that does not exist is written. -/
  | outOfBounds (index : Nat)

abbrev ArrayChange := EStateM ArrayChange.Stop ArrayStore

/-! ## The steps of an operation -/

namespace ArrayStore

def removeSparse (index : Nat) (sparse : List (Nat × Value)) : List (Nat × Value) :=
  sparse.filter (·.1 ≠ index)

theorem length_removeSparse_lt {index : Nat} {value : Value} {sparse : List (Nat × Value)}
    (found : sparseGet? index sparse = some value) :
    (removeSparse index sparse).length < sparse.length := by
  have present : ∃ entry ∈ sparse, entry.1 = index := by
    by_contra absent
    rw [sparseGet?_eq_none fun entry member equal => absent ⟨entry, member, equal⟩] at found
    cases found
  obtain ⟨entry, member, equal⟩ := present
  apply List.length_filter_lt_length_iff_exists.mpr
  exact ⟨entry, member, by simp [equal]⟩

def takeFollowing (dense : Array Value) (sparse : List (Nat × Value)) :
    Array Value × List (Nat × Value) :=
  match _found : sparseGet? dense.size sparse with
  | none => (dense, sparse)
  | some value => takeFollowing (dense.push value) (removeSparse dense.size sparse)
termination_by sparse.length
decreasing_by exact length_removeSparse_lt _found

end ArrayStore

namespace ArrayChange

open ArrayStore (maxLength maxGap sparseInsert takeFollowing)

def writeDense (index : Nat) (value : Value) : ArrayChange Unit := do
  if index < (← get).dense.size then
    modify fun store => { store with dense := store.dense.setIfInBounds index value }
  else throw (.outOfBounds index)

def writeAll : List (Nat × Value) → ArrayChange Unit
  | [] => return
  | (index, value) :: entries => do
    writeDense index value
    writeAll entries

def splitOff (index : Nat) : ArrayChange (List (Nat × Value)) :=
  modifyGet fun store => (store.sparse.filter (index ≤ ·.1),
    { store with sparse := store.sparse.filter (·.1 < index) })

def absorb : ArrayChange Unit := do
  let far ← splitOff (← get).dense.size
  let near ← modifyGet fun store => (store.sparse, { store with sparse := far })
  writeAll near
  modify fun store =>
    let (dense, sparse) := takeFollowing store.dense store.sparse
    { store with dense, sparse }

def refuse : ArrayChange Unit := throw (.refused { cause := .invalidArrayLength })

def extend (index : Nat) (value : Value) : ArrayChange Unit := do
  modify fun store => { store with
    dense := store.dense ++ Array.replicate (index - store.dense.size) .undefined }
  modify fun store => { store with dense := store.dense.push value }
  absorb

/-- Writes an element where it belongs. -/
def write (index : Nat) (value : Value) : ArrayChange Unit := do
  let size := (← get).dense.size
  if index < size then writeDense index value
  else if index - size ≤ maxGap then extend index value
  else modify fun store => { store with sparse := sparseInsert index value store.sparse }

def set (index : Nat) (value : Value) : ArrayChange Unit := do
  if maxLength ≤ index then refuse
  write index value
  modify fun store => { store with length := max store.length (index + 1) }

def push (value : Value) : ArrayChange Nat := do
  set (← get).length value
  return (← get).length

def setLength (length : Nat) : ArrayChange Unit := do
  if maxLength < length then refuse
  modify fun store => { store with dense := store.dense.take length }
  let _lost ← splitOff length
  modify fun store => { store with length }

/-- The change ends as the result says, and leaves a refused store as it was. -/
def outcome {α : Type} (store : ArrayStore) :
    Except Error (ArrayStore × α) → EStateM.Result Stop ArrayStore α
  | .ok (after, result) => .ok result after
  | .error error => .error (.refused error) store

end ArrayChange

/-! ## Moving elements in place -/

namespace ArrayStore

/-- Of entries in order, those before an index come first. -/
theorem Increasing.absorb_filter {sparse : List (Nat × Value)} (increasing : Increasing sparse)
    (dense : Array Value) :
    absorb dense sparse =
      absorb ((sparse.filter (·.1 < dense.size)).foldl
        (fun dense entry => dense.setIfInBounds entry.1 entry.2) dense)
        (sparse.filter (dense.size ≤ ·.1)) := by
  induction sparse generalizing dense with
  | nil => rfl
  | cons entry entries induction =>
      obtain ⟨key, value⟩ := entry
      obtain ⟨above, tail⟩ := List.pairwise_cons.mp increasing
      by_cases inside : key < dense.size
      · have written := induction tail (dense.setIfInBounds key value)
        rw [Array.size_setIfInBounds] at written
        rw [absorb, if_pos inside, written]
        simp [inside, Nat.not_le.mpr inside]
      · have beyond : ∀ entry ∈ (key, value) :: entries, dense.size ≤ entry.1 := by
          intro entry member
          rcases List.mem_cons.mp member with rfl | member
          · exact Nat.le_of_not_lt inside
          · exact (Nat.le_of_not_lt inside).trans (above entry member).le
        rw [List.filter_eq_nil_iff.mpr, List.filter_eq_self.mpr, List.foldl_nil]
        · intro entry member
          exact decide_eq_true (beyond entry member)
        · intro entry member
          simpa using beyond entry member

/-- Entries in order that lie behind the dense elements are moved as long as the first
of them follows directly. -/
theorem Increasing.absorb_eq_takeFollowing {sparse : List (Nat × Value)}
    (increasing : Increasing sparse) (dense : Array Value)
    (beyond : ∀ entry ∈ sparse, dense.size ≤ entry.1) :
    absorb dense sparse = takeFollowing dense sparse := by
  induction sparse generalizing dense with
  | nil =>
      rw [takeFollowing]
      rfl
  | cons entry entries induction =>
      obtain ⟨key, value⟩ := entry
      obtain ⟨above, tail⟩ := List.pairwise_cons.mp increasing
      have first : dense.size ≤ key := beyond (key, value) (List.mem_cons_self ..)
      rw [absorb, if_neg (Nat.not_lt.mpr first), takeFollowing]
      by_cases follows : key = dense.size
      · have removed : removeSparse dense.size ((key, value) :: entries) = entries := by
          rw [removeSparse, List.filter_cons_of_neg (by simp [follows])]
          apply List.filter_eq_self.mpr
          intro entry member
          exact decide_eq_true (Nat.ne_of_gt (follows ▸ above entry member))
        have found : sparseGet? dense.size ((key, value) :: entries) = some value := by
          rw [sparseGet?, if_pos follows]
        rw [if_pos follows, induction tail]
        · split
          · next missing => cases missing.symm.trans found
          · next other present =>
              obtain rfl : value = other := Option.some.inj (found.symm.trans present)
              rw [removed]
        · intro entry member
          rw [Array.size_push, ← follows]
          exact above entry member
      · have missing : sparseGet? dense.size ((key, value) :: entries) = none := by
          apply sparseGet?_eq_none
          intro entry member
          rcases List.mem_cons.mp member with rfl | member
          · exact follows
          · exact Nat.ne_of_gt (first.trans_lt (above entry member))
        rw [if_neg follows]
        split
        · rfl
        · next present => cases missing.symm.trans present

end ArrayStore

namespace ArrayChange

open ArrayStore (Increasing maxLength maxGap sparseInsert)

theorem bind_run {α β : Type} {before after : ArrayStore} {action : ArrayChange α} {result : α}
    (ran : action before = .ok result after) (next : α → ArrayChange β) :
    (action >>= next) before = next result after := by
  simp only [Bind.bind, EStateM.bind, ran]

theorem writeDense_run {store : ArrayStore} {index : Nat} (value : Value)
    (inside : index < store.dense.size) :
    writeDense index value store =
      .ok () { store with dense := store.dense.setIfInBounds index value } := by
  show (if index < store.dense.size then _ else _ : ArrayChange Unit) store = _
  rw [if_pos inside]
  rfl

theorem writeAll_run (store : ArrayStore) (entries : List (Nat × Value))
    (inside : ∀ entry ∈ entries, entry.1 < store.dense.size) :
    writeAll entries store = .ok () { store with
      dense := entries.foldl (fun dense entry => dense.setIfInBounds entry.1 entry.2)
        store.dense } := by
  induction entries generalizing store with
  | nil => rfl
  | cons entry entries induction =>
      obtain ⟨index, value⟩ := entry
      have first := writeDense_run value (inside (index, value) (List.mem_cons_self ..))
      rw [writeAll, bind_run first, induction]
      · rfl
      · intro entry member
        simpa using inside entry (List.mem_cons_of_mem _ member)

theorem absorb_run (store : ArrayStore) (increasing : Increasing store.sparse) :
    absorb store = .ok () { store with
      dense := (ArrayStore.absorb store.dense store.sparse).1
      sparse := (ArrayStore.absorb store.dense store.sparse).2 } := by
  have written := writeAll_run
    { store with sparse := store.sparse.filter (store.dense.size ≤ ·.1) }
    (store.sparse.filter (·.1 < store.dense.size))
    fun entry member => by simpa using (List.mem_filter.mp member).2
  have size : ∀ (entries : List (Nat × Value)) (dense : Array Value),
      (entries.foldl (fun dense entry => dense.setIfInBounds entry.1 entry.2) dense).size =
        dense.size := by
    intro entries
    induction entries with
    | nil => exact fun dense => rfl
    | cons entry entries induction =>
        exact fun dense => (induction _).trans Array.size_setIfInBounds
  have moved := (increasing.absorb_filter store.dense).trans
    (Increasing.absorb_eq_takeFollowing (increasing.filter _) _ fun entry member => by
      rw [size]
      simpa using (List.mem_filter.mp member).2)
  rw [moved]
  show (writeAll (store.sparse.filter (·.1 < store.dense.size)) >>= fun _ => modify _)
    { store with sparse := store.sparse.filter (store.dense.size ≤ ·.1) } = _
  rw [bind_run written]
  rfl

/-! ## The operations in place -/

theorem extend_run {store : ArrayStore} (increasing : Increasing store.sparse) (index : Nat)
    (value : Value) :
    let (dense, sparse) :=
      ArrayStore.absorb (ArrayStore.extend store.dense index value) store.sparse
    extend index value store = .ok () { store with dense, sparse } :=
  absorb_run { store with dense := ArrayStore.extend store.dense index value } increasing

theorem write_apply (store : ArrayStore) (index : Nat) (value : Value) :
    write index value store =
      (if index < store.dense.size then writeDense index value
      else if index - store.dense.size ≤ maxGap then extend index value
      else modify fun store =>
        { store with sparse := sparseInsert index value store.sparse } : ArrayChange Unit) store :=
  rfl

theorem set_run {store : ArrayStore} (increasing : Increasing store.sparse) (index : Nat)
    (value : Value) :
    set index value store = outcome store ((·, ()) <$> store.set index value) := by
  unfold set ArrayStore.set
  by_cases large : maxLength ≤ index
  · rw [if_pos large, if_pos large]
    rfl
  · rw [if_neg large, if_neg large]
    show (write index value >>= fun _ => modify _) store = _
    have applied := write_apply store index value
    by_cases inside : index < store.dense.size
    · rw [if_pos inside] at applied ⊢
      rw [bind_run (applied.trans (writeDense_run value inside))]
      rfl
    · rw [if_neg inside] at applied ⊢
      by_cases near : index - store.dense.size ≤ maxGap
      · rw [if_pos near] at applied ⊢
        rw [bind_run (applied.trans (extend_run increasing index value))]
        rfl
      · rw [if_neg near] at applied ⊢
        rw [bind_run applied]
        rfl

theorem push_run {store : ArrayStore} (increasing : Increasing store.sparse) (value : Value) :
    push value store = outcome store (store.push value) := by
  have written := set_run increasing store.length value
  unfold push ArrayStore.push
  simp only [Bind.bind, EStateM.bind, MonadState.get, getThe, MonadStateOf.get, EStateM.get,
    written]
  cases store.set store.length value <;> rfl

theorem setLength_run (store : ArrayStore) (length : Nat) :
    setLength length store = outcome store ((·, ()) <$> store.setLength length) := by
  unfold setLength ArrayStore.setLength
  by_cases large : maxLength < length
  · rw [if_pos large, if_pos large]
    rfl
  · rw [if_neg large, if_neg large]
    rfl

end ArrayChange

/-! ## Sequences of operations -/

namespace ArrayStore

/-- What changes an array. -/
inductive Operation where
  | set (index : Nat) (value : Value)
  | push (value : Value)
  | setLength (length : Nat)
  | setNamed (key : String) (value : Value)

namespace Operation

variable {store after : ArrayStore}

def apply (store : ArrayStore) : Operation → Except Error ArrayStore
  | set index value => store.set index value
  | push value => (·.1) <$> store.push value
  | setLength length => store.setLength length
  | setNamed key value => .ok (store.setNamed key value)

def change : Operation → ArrayChange Unit
  | set index value => ArrayChange.set index value
  | push value => discard (ArrayChange.push value)
  | setLength length => ArrayChange.setLength length
  | setNamed key value => modify fun store => store.setNamed key value

/-- The store that the operation leaves behind, whether or not it stops. -/
def leave (store : ArrayStore) (operation : Operation) : ArrayStore :=
  match operation.change store with
  | .ok _ after => after
  | .error _ after => after

theorem change_run (increasing : Increasing store.sparse) (operation : Operation) :
    operation.change store = ArrayChange.outcome store ((·, ()) <$> operation.apply store) := by
  cases operation with
  | set index value => exact ArrayChange.set_run increasing index value
  | push value =>
      have pushed := ArrayChange.push_run increasing value
      show (discard (ArrayChange.push value) : ArrayChange Unit) store =
        ArrayChange.outcome store ((·, ()) <$> (·.1) <$> store.push value)
      simp only [discard, Functor.mapConst, EStateM.map, Function.comp, pushed]
      cases store.push value <;> rfl
  | setLength length => exact ArrayChange.setLength_run store length
  | setNamed key value => rfl

end Operation

structure Bounded (store : ArrayStore) : Prop extends Layout store where
  length_le : store.length ≤ maxLength

namespace Bounded

variable {store after : ArrayStore}

theorem ofList {elements : List Value} (short : elements.length ≤ maxLength) :
    Bounded (ofList elements) where
  toLayout := Layout.ofList elements
  length_le := short

theorem set {index : Nat} {value : Value} (bounded : Bounded store)
    (written : store.set index value = .ok after) : Bounded after where
  toLayout := bounded.toLayout.set written
  length_le := by
    have allowed : ¬ maxLength ≤ index := by
      intro large
      rw [ArrayStore.set, if_pos large] at written
      cases written
    rw [length_set written]
    exact max_le bounded.length_le (Nat.lt_of_not_le allowed)

theorem setLength {length : Nat} (bounded : Bounded store)
    (changed : store.setLength length = .ok after) : Bounded after where
  toLayout := bounded.toLayout.setLength changed
  length_le := by
    unfold ArrayStore.setLength at changed
    split at changed
    · cases changed
    · next allowed =>
        cases changed
        exact Nat.le_of_not_lt allowed

theorem apply {operation : Operation} (bounded : Bounded store)
    (applied : operation.apply store = .ok after) : Bounded after := by
  cases operation with
  | set index value => exact bounded.set applied
  | push value =>
      simp only [Operation.apply, ArrayStore.push] at applied
      cases written : store.set store.length value with
      | error error =>
          rw [written] at applied
          cases applied
      | ok extended =>
          rw [written] at applied
          cases applied
          exact bounded.set written
  | setLength length => exact bounded.setLength applied
  | setNamed key value =>
      cases applied
      exact ⟨bounded.toLayout.setNamed key value, bounded.length_le⟩

theorem leave (bounded : Bounded store) (operation : Operation) :
    Bounded (operation.leave store) := by
  have run := operation.change_run bounded.increasing
  unfold Operation.leave
  rw [run]
  cases applied : operation.apply store with
  | ok after => exact bounded.apply applied
  | error error => exact bounded

theorem foldl_leave (bounded : Bounded store) (operations : List Operation) :
    Bounded (operations.foldl Operation.leave store) := by
  induction operations generalizing store with
  | nil => exact bounded
  | cons operation operations induction => exact induction (bounded.leave operation)

end Bounded

/-! ## The stored elements -/

namespace Layout

variable {store : ArrayStore}

theorem mem_entries_iff (index : Nat) (value : Value) :
    (index, value) ∈ store.entries ↔
      store.dense[index]? = some value ∨ (index, value) ∈ store.sparse := by
  unfold entries
  rw [List.mem_append]
  apply or_congr_left
  simp only [List.mem_map, Prod.mk.injEq, Prod.exists, List.mem_zipIdx_iff_getElem?,
    Array.getElem?_toList]
  constructor
  · rintro ⟨element, place, found, rfl, rfl⟩
    exact found
  · exact fun found => ⟨value, index, found, rfl, rfl⟩

theorem entries_increasing (layout : Layout store) : Increasing store.entries := by
  unfold entries
  apply List.pairwise_append.mpr
  refine ⟨?_, layout.increasing, ?_⟩
  · rw [List.pairwise_map]
    apply List.pairwise_iff_getElem.mpr
    intro first second firstInside secondInside before
    simpa using before
  · intro near nearMember far farMember
    obtain ⟨⟨value, index⟩, member, rfl⟩ := List.mem_map.mp nearMember
    have inside : index < store.dense.size := by
      have := List.mem_zipIdx member
      simpa using this.2.1
    exact inside.trans (layout.apart far farMember).1

theorem sparseGet?_eq_some_iff {entries : List (Nat × Value)} (increasing : Increasing entries)
    (index : Nat) (value : Value) :
    sparseGet? index entries = some value ↔ (index, value) ∈ entries := by
  induction entries with
  | nil => simp [sparseGet?]
  | cons entry entries induction =>
      obtain ⟨key, old⟩ := entry
      obtain ⟨above, tail⟩ := List.pairwise_cons.mp increasing
      rw [sparseGet?, List.mem_cons, ← induction tail]
      split
      · next equal =>
          have fresh : sparseGet? index entries = none :=
            sparseGet?_eq_none fun other member => (equal ▸ Nat.ne_of_gt (above other member) :)
          simp [fresh, equal, eq_comm]
      · next different => simp [Ne.symm different]

theorem mem_entries_iff_get? (layout : Layout store) (index : Nat) (value : Value) :
    (index, value) ∈ store.entries ↔ store.get? index = some value := by
  rw [mem_entries_iff, get?, ← sparseGet?_eq_some_iff layout.increasing]
  split
  · next inside =>
      rw [layout.sparseGet?_of_le inside.le]
      exact or_iff_left (by simp)
  · next beyond =>
      rw [Array.getElem?_eq_none (Nat.le_of_not_lt beyond)]
      exact or_iff_right (by simp)

theorem hasIndex_iff (index : Nat) :
    store.hasIndex index = true ↔ ∃ value, store.get? index = some value := by
  unfold hasIndex get?
  by_cases inside : index < store.dense.size
  · simp [inside]
  · simp [inside, Option.isSome_iff_exists]

end Layout

/-! ## The representation along a run -/

/-- Through every sequence of operations the dense elements, the elements behind them
and the length stay in order, and the entries are the stored elements by increasing
index. An operation in place ends as the operation on the whole store does: none
writes a dense element that does not exist, and one that is refused changes nothing. -/
theorem foldl_leave_representation (elements : List Value) (short : elements.length ≤ maxLength)
    (operations : List Operation) :
    let store := operations.foldl Operation.leave (ofList elements)
    (store.dense.size ≤ store.length ∧ store.length ≤ maxLength ∧
      ∀ entry ∈ store.sparse, store.dense.size < entry.1 ∧ entry.1 < store.length) ∧
    (Increasing store.entries ∧
      (∀ index, (∃ value, (index, value) ∈ store.entries) ↔ store.hasIndex index = true) ∧
      ∀ index value, (index, value) ∈ store.entries → store.get index = value) ∧
    ∀ operation : Operation,
      match operation.change store with
      | .ok _ after => operation.apply store = .ok after
      | .error stop after => after = store ∧
          ∃ error, stop = .refused error ∧ operation.apply store = .error error := by
  intro store
  have bounded : Bounded store := (Bounded.ofList short).foldl_leave operations
  have layout := bounded.toLayout
  refine ⟨⟨layout.dense_le, bounded.length_le, layout.apart⟩,
    ⟨layout.entries_increasing, ?_, ?_⟩, ?_⟩
  · intro index
    rw [Layout.hasIndex_iff]
    exact exists_congr (layout.mem_entries_iff_get? index)
  · intro index value member
    rw [get, (layout.mem_entries_iff_get? index value).mp member]
    rfl
  · intro operation
    rw [operation.change_run layout.increasing]
    cases applied : operation.apply store with
    | ok after => rfl
    | error error => exact ⟨rfl, error, rfl, rfl⟩

/-- An element far behind is moved to the dense ones, an index beyond the largest length
is refused, and the last element is cut off. -/
theorem foldl_leave_representation_stranded :
    let store := [Operation.set 1025 .null, .set 0 .null, .set 1024 .null, .set maxLength .null,
      .setLength 1025].foldl Operation.leave (ofList [])
    store.dense.size ≤ store.length ∧ store.length ≤ maxLength := by
  intro store
  have representation := foldl_leave_representation [] (Nat.zero_le _)
    [.set 1025 .null, .set 0 .null, .set 1024 .null, .set maxLength .null, .setLength 1025]
  exact ⟨representation.1.1, representation.1.2.1⟩

end ArrayStore

end ExprScript
