import ExprScript.Proofs.ArrayRepresentation

/-! # Arrays that are cut and grow again

An array that is cut to a length stores nothing beyond it. Growing the array afterwards
stores nothing either, so what was cut off does not come back: an element is seen again
only if one is stored at its index.
-/

namespace ExprScript.ArrayStore

variable {store after : ArrayStore} {index length count : Nat} {value : Value}

/-! ## Lengths -/

theorem length_setLength (changed : store.setLength length = .ok after) :
    after.length = length := by
  unfold setLength at changed
  split at changed
  · cases changed
  · cases changed
    rfl

theorem sparseGet?_filter (length index : Nat) (entries : List (Nat × Value)) :
    sparseGet? index (entries.filter (·.1 < length)) =
      if index < length then sparseGet? index entries else none := by
  induction entries with
  | nil => simp [sparseGet?]
  | cons entry entries induction =>
      obtain ⟨key, value⟩ := entry
      by_cases kept : key < length
      · rw [List.filter_cons_of_pos (by simpa using kept), sparseGet?, sparseGet?, induction]
        by_cases same : key = index
        · rw [if_pos same, if_pos (same ▸ kept), if_pos same]
        · rw [if_neg same, if_neg same]
      · rw [List.filter_cons_of_neg (by simpa using kept), induction, sparseGet?]
        by_cases inside : index < length
        · have different : key ≠ index := by omega
          rw [if_pos inside, if_pos inside, if_neg different]
        · rw [if_neg inside, if_neg inside]

theorem get?_setLength (changed : store.setLength length = .ok after) (index : Nat) :
    after.get? index = if index < length then store.get? index else none := by
  unfold setLength at changed
  split at changed
  · cases changed
  · cases changed
    simp only [get?, sparseGet?_filter, Array.take_eq_extract, Array.size_extract,
      Array.getElem?_extract]
    grind

theorem hasIndex_eq_isSome (store : ArrayStore) (index : Nat) :
    store.hasIndex index = (store.get? index).isSome := by
  rw [Bool.eq_iff_iff, Layout.hasIndex_iff, Option.isSome_iff_exists]

/-! ## Elements -/

namespace Layout

theorem get_set (layout : Layout store) (written : store.set index value = .ok after)
    {other : Nat} (different : other ≠ index) : after.get other = store.get other := by
  have read := get?_set layout written other
  rwa [if_neg fun both => different both.1] at read

theorem keepsLast (layout : Layout store) : store.losesWrite store.length = false := by
  have free : sparseGet? store.length store.sparse = none :=
    sparseGet?_eq_none fun entry member => Nat.ne_of_lt (layout.apart entry member).2
  rw [losesWrite, free, Option.isSome_none, Bool.and_false]

theorem get_set_length (layout : Layout store)
    (written : store.set store.length value = .ok after) : after.get store.length = value := by
  have read := get?_set layout written store.length
  rwa [if_pos ⟨rfl, layout.keepsLast⟩] at read

end Layout

theorem set_of_push (pushed : store.push value = .ok (after, count)) :
    store.set store.length value = .ok after ∧ count = after.length := by
  unfold push at pushed
  cases written : store.set store.length value with
  | error error =>
      rw [written] at pushed
      cases pushed
  | ok extended =>
      rw [written] at pushed
      cases pushed
      exact ⟨rfl, rfl⟩

/-! ## Later operations -/

namespace Operation

def target? (store : ArrayStore) : Operation → Option Nat
  | set index _ => some index
  | push _ => some store.length
  | setLength _ | setNamed _ _ => none

def Spare (index : Nat) : ArrayStore → List Operation → Prop
  | _, [] => True
  | store, operation :: operations =>
    operation.target? store ≠ some index ∧ Spare index (operation.leave store) operations

theorem leave_cases (reachable : Reachable store) (operation : Operation) :
    operation.leave store = store ∨ operation.apply store = .ok (operation.leave store) := by
  have run := operation.change_run reachable.layout.increasing
  unfold leave
  rw [run]
  cases operation.apply store with
  | ok after => exact .inr rfl
  | error error => exact .inl rfl

theorem push_of_apply (applied : (push value).apply store = .ok after) :
    ∃ count, store.push value = .ok (after, count) := by
  rw [apply] at applied
  cases pushed : store.push value with
  | error error =>
      rw [pushed] at applied
      cases applied
  | ok result =>
      rw [pushed] at applied
      cases applied
      exact ⟨result.2, rfl⟩

end Operation

namespace Reachable

theorem leave (reachable : Reachable store) (operation : Operation) :
    Reachable (operation.leave store) := by
  rcases operation.leave_cases reachable with same | applied
  · rw [same]
    exact reachable
  · generalize operation.leave store = after at applied
    cases operation with
    | set index value => exact reachable.set applied
    | push value =>
        obtain ⟨count, pushed⟩ := Operation.push_of_apply applied
        exact reachable.push pushed
    | setLength length => exact reachable.setLength applied
    | setNamed key value =>
        cases applied
        exact reachable.setNamed key value

/-- An operation that stores nothing at the index leaves the element as it was, or cuts it
off. -/
theorem get_leave (reachable : Reachable store) {operation : Operation}
    (spares : operation.target? store ≠ some index) :
    (operation.leave store).get index = store.get index ∨
      (operation.leave store).get index = .undefined := by
  rcases operation.leave_cases reachable with same | applied
  · rw [same]
    exact .inl rfl
  · generalize operation.leave store = after at applied
    cases operation with
    | set place value =>
        have different : index ≠ place := fun same => spares (congrArg some same.symm)
        exact .inl (reachable.layout.get_set applied different)
    | push value =>
        obtain ⟨count, pushed⟩ := Operation.push_of_apply applied
        have different : index ≠ store.length := fun same => spares (congrArg some same.symm)
        exact .inl (reachable.layout.get_set (set_of_push pushed).1 different)
    | setLength length =>
        unfold get
        rw [get?_setLength applied]
        split
        · exact .inl rfl
        · exact .inr rfl
    | setNamed key value =>
        cases applied
        exact .inl rfl

theorem get_foldl_leave (reachable : Reachable store) {operations : List Operation}
    (missing : store.get index = .undefined) (spare : Operation.Spare index store operations) :
    (operations.foldl Operation.leave store).get index = .undefined := by
  induction operations generalizing store with
  | nil => exact missing
  | cons operation operations induction =>
      apply induction (reachable.leave operation) _ spare.2
      rcases reachable.get_leave spare.1 with same | cut
      · exact same.trans missing
      · exact cut

theorem get?_foldl_setLength (reachable : Reachable store) (missing : store.get? index = none)
    (lengths : List Nat) :
    ((lengths.map Operation.setLength).foldl Operation.leave store).get? index = none := by
  induction lengths generalizing store with
  | nil => exact missing
  | cons length lengths induction =>
      apply induction (reachable.leave (.setLength length))
      rcases Operation.leave_cases reachable (.setLength length) with same | changed
      · rwa [same]
      · rw [get?_setLength changed, missing, ite_self]

end Reachable

/-! ## The operations on the length -/

/-- A new length keeps the elements before it and cuts off all others. However the length
is changed later, nothing is stored in their places; and whatever else is done, they stay
`undefined` until an element is stored there. A new last element is stored at the old
length, and no other element changes. -/
theorem setLength_push_of_reachable (reachable : Reachable store) :
    (∀ length after, store.setLength length = .ok after →
      after.length = length ∧
      (∀ index < length, after.get index = store.get index ∧
        after.hasIndex index = store.hasIndex index) ∧
      ∀ index, length ≤ index →
        (∀ lengths : List Nat,
          let later := (lengths.map Operation.setLength).foldl Operation.leave after
          later.get index = .undefined ∧ later.hasIndex index = false) ∧
        ∀ operations, Operation.Spare index after operations →
          (operations.foldl Operation.leave after).get index = .undefined) ∧
    ∀ value after count, store.push value = .ok (after, count) →
      count = store.length + 1 ∧ after.length = count ∧ after.get store.length = value ∧
        ∀ index ≠ store.length, after.get index = store.get index := by
  constructor
  · intro length after changed
    have reachable' := reachable.setLength changed
    refine ⟨length_setLength changed, ?_, ?_⟩
    · intro index inside
      have kept : after.get? index = store.get? index := by
        rw [get?_setLength changed, if_pos inside]
      rw [get, get, hasIndex_eq_isSome, hasIndex_eq_isSome, kept]
      exact ⟨rfl, rfl⟩
    · intro index beyond
      have cut : after.get? index = none := by
        rw [get?_setLength changed, if_neg (Nat.not_lt.mpr beyond)]
      constructor
      · intro lengths later
        have missing : later.get? index = none := reachable'.get?_foldl_setLength cut lengths
        rw [get, hasIndex_eq_isSome, missing]
        exact ⟨rfl, rfl⟩
      · intro operations spare
        apply reachable'.get_foldl_leave _ spare
        rw [get, cut]
        rfl
  · intro value after count pushed
    obtain ⟨written, rfl⟩ := set_of_push pushed
    have grown : after.length = store.length + 1 := by
      rw [length_set written]
      exact Nat.max_eq_right (Nat.le_succ _)
    refine ⟨grown, rfl, reachable.layout.get_set_length written, ?_⟩
    intro index different
    exact reachable.layout.get_set written different

/-- The element that is stored apart is cut off. It does not come back with the length, nor
when the array grows by an element before it. -/
theorem setLength_push_of_reachable_stranded :
    ∃ cut grown count, stranded.setLength 1024 = .ok cut ∧
      (([1026].map Operation.setLength).foldl Operation.leave cut).hasIndex 1025 = false ∧
      ([.push (.boolean true), .setLength 1026].foldl Operation.leave cut).get 1025 = .undefined ∧
      stranded.push (.boolean true) = .ok (grown, count) ∧ count = 1027 ∧
      grown.get 1026 = .boolean true ∧ grown.get 1025 = .null := by
  have both := setLength_push_of_reachable reachable_stranded
  obtain ⟨grown, written⟩ := exists_set stranded (.boolean true) (show 1026 < maxLength by decide)
  have pushed : stranded.push (.boolean true) = .ok (grown, grown.length) := by
    rw [push, show stranded.length = 1026 from rfl, written]
    rfl
  obtain ⟨-, -, beyond⟩ := both.1 1024 { dense := #[.null], length := 1024 } rfl
  obtain ⟨regrown, later⟩ := beyond 1025 (by decide)
  obtain ⟨count, -, last, others⟩ := both.2 _ _ _ pushed
  exact ⟨_, grown, _, rfl, (regrown [1026]).2, later _ ⟨by decide, by decide, trivial⟩, pushed,
    count, last, others 1025 (by decide)⟩

end ExprScript.ArrayStore
