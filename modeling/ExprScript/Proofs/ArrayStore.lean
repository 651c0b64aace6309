import ExprScript.Value.ArrayStore
import Mathlib

/-! # Reading what was written to an array

An array keeps a dense beginning and single elements behind it. The layout
below holds in every array that the operations can build; under it each
operation is described by what `get?` reads afterwards, and the two parts of
the storage are not looked at again.
-/

namespace ExprScript.ArrayStore

/-! ## Elements that are stored apart -/

def Increasing (entries : List (Nat × Value)) : Prop :=
  entries.Pairwise fun left right => left.1 < right.1

theorem sparseGet?_eq_none {entries : List (Nat × Value)} {index : Nat}
    (absent : ∀ entry ∈ entries, entry.1 ≠ index) : sparseGet? index entries = none := by
  induction entries with
  | nil => rfl
  | cons entry entries induction =>
      rw [sparseGet?, if_neg (absent entry (List.mem_cons_self ..))]
      exact induction fun other member => absent other (List.mem_cons_of_mem _ member)

theorem sparseGet?_sparseInsert (index other : Nat) (value : Value)
    (entries : List (Nat × Value)) :
    sparseGet? other (sparseInsert index value entries) =
      if other = index then some value else sparseGet? other entries := by
  induction entries with
  | nil =>
      simp only [sparseInsert, sparseGet?, eq_comm]
  | cons entry entries induction =>
      obtain ⟨key, old⟩ := entry
      by_cases before : key < index
      · rw [sparseInsert, if_pos before, sparseGet?, sparseGet?, induction]
        have different : key ≠ index := Nat.ne_of_lt before
        grind
      · rw [sparseInsert, if_neg before]
        by_cases equal : key = index
        · subst equal
          rw [if_pos rfl, sparseGet?, sparseGet?]
          grind
        · rw [if_neg equal, sparseGet?]
          grind

theorem mem_sparseInsert {index : Nat} {value : Value} {entries : List (Nat × Value)}
    {entry : Nat × Value} (member : entry ∈ sparseInsert index value entries) :
    entry = (index, value) ∨ entry ∈ entries := by
  fun_induction sparseInsert index value entries <;> grind

theorem Increasing.sparseInsert {entries : List (Nat × Value)} (increasing : Increasing entries)
    (index : Nat) (value : Value) : Increasing (sparseInsert index value entries) := by
  induction entries with
  | nil => exact List.pairwise_singleton _ _
  | cons entry entries induction =>
      obtain ⟨key, old⟩ := entry
      obtain ⟨above, tail⟩ := List.pairwise_cons.mp increasing
      rw [ArrayStore.sparseInsert]
      split
      · rename_i before
        refine List.pairwise_cons.mpr ⟨?_, induction tail⟩
        intro other member
        rcases mem_sparseInsert member with equal | member
        · rw [equal]
          exact before
        · exact above other member
      · split
        · rename_i equal
          refine List.pairwise_cons.mpr ⟨?_, tail⟩
          intro other member
          rw [← equal]
          exact above other member
        · refine List.pairwise_cons.mpr ⟨?_, increasing⟩
          intro other member
          rcases List.mem_cons.mp member with rfl | member
          · simp only
            omega
          · have := above other member
            simp only at this ⊢
            omega

/-! ## Moving elements to the dense ones -/

/-- What is stored apart wins over the dense element of the same index: it is
written over it. -/
theorem get?_absorb (length : Nat) (named : List (String × Value)) (dense : Array Value)
    {sparse : List (Nat × Value)} (increasing : Increasing sparse) (index : Nat) :
    get? ⟨(absorb dense sparse).1, (absorb dense sparse).2, length, named⟩ index =
      (sparseGet? index sparse).or dense[index]? := by
  induction sparse generalizing dense with
  | nil =>
      simp only [absorb, get?, sparseGet?, Option.none_or]
      split
      · rfl
      · exact (Array.getElem?_eq_none (by omega)).symm
  | cons entry entries induction =>
      obtain ⟨key, value⟩ := entry
      obtain ⟨above, tail⟩ := List.pairwise_cons.mp increasing
      have fresh : sparseGet? key entries = none :=
        sparseGet?_eq_none fun other member => Nat.ne_of_gt (above other member)
      rw [absorb]
      split
      · rename_i inside
        rw [induction _ tail, sparseGet?]
        by_cases equal : key = index
        · subst equal
          simp [fresh, inside]
        · simp [equal]
      · split
        · rename_i follows
          rw [induction _ tail, sparseGet?]
          by_cases equal : key = index
          · subst equal
            rw [if_pos rfl, fresh, follows, Array.getElem?_push_size]
            rfl
          · rw [if_neg equal, Array.getElem?_push, if_neg (by omega)]
        · rename_i notInside notFollowing
          -- The first entry lies beyond the end, so all of them do.
          simp only [get?]
          split
          · rename_i withinDense
            rw [sparseGet?_eq_none, Option.none_or]
            intro other member
            rcases List.mem_cons.mp member with rfl | member
            · simp only
              omega
            · have := above other member
              simp only at this
              omega
          · rw [Array.getElem?_eq_none (by omega), Option.or_none]

theorem absorb_layout (length : Nat) (dense : Array Value) {sparse : List (Nat × Value)}
    (increasing : Increasing sparse) (denseLe : dense.size ≤ length)
    (below : ∀ entry ∈ sparse, entry.1 < length) :
    (absorb dense sparse).1.size ≤ length ∧ Increasing (absorb dense sparse).2 ∧
      ∀ entry ∈ (absorb dense sparse).2,
        (absorb dense sparse).1.size < entry.1 ∧ entry.1 < length := by
  induction sparse generalizing dense with
  | nil => exact ⟨denseLe, List.Pairwise.nil, by simp [absorb]⟩
  | cons entry entries induction =>
      obtain ⟨key, value⟩ := entry
      obtain ⟨above, tail⟩ := List.pairwise_cons.mp increasing
      have keyBelow : key < length := below (key, value) (List.mem_cons_self ..)
      have tailBelow : ∀ entry ∈ entries, entry.1 < length := fun other member =>
        below other (List.mem_cons_of_mem _ member)
      rw [absorb]
      split
      · exact induction _ tail (by simpa using denseLe) tailBelow
      · split
        · refine induction _ tail ?_ tailBelow
          rw [Array.size_push]
          omega
        · refine ⟨denseLe, increasing, fun other member => ⟨?_, below other member⟩⟩
          rcases List.mem_cons.mp member with rfl | member
          · simp only
            omega
          · have := above other member
            simp only at this ⊢
            omega

@[simp] theorem size_extend (dense : Array Value) (index : Nat) (value : Value)
    (beyond : dense.size ≤ index) : (extend dense index value).size = index + 1 := by
  simp only [extend, Array.size_push, Array.size_append, Array.size_replicate]
  omega

theorem getElem?_extend (dense : Array Value) (index other : Nat) (value : Value)
    (beyond : dense.size ≤ index) :
    (extend dense index value)[other]? =
      if other < dense.size then dense[other]?
      else if other < index then some .undefined
      else if other = index then some value else none := by
  have size : (dense ++ Array.replicate (index - dense.size) Value.undefined).size = index := by
    simp only [Array.size_append, Array.size_replicate]
    omega
  rw [extend, Array.getElem?_push, size, Array.getElem?_append, Array.getElem?_replicate]
  grind

/-! ## The layout of an array -/

/-- How the two parts of the storage lie to each other. -/
structure Layout (store : ArrayStore) : Prop where
  dense_le : store.dense.size ≤ store.length
  increasing : Increasing store.sparse
  apart : ∀ entry ∈ store.sparse, store.dense.size < entry.1 ∧ entry.1 < store.length

namespace Layout

theorem ofList (elements : List Value) : Layout (ofList elements) where
  dense_le := by simp [ArrayStore.ofList]
  increasing := List.Pairwise.nil
  apart := by simp [ArrayStore.ofList]

theorem set {store after : ArrayStore} {index : Nat} {value : Value} (layout : Layout store)
    (written : store.set index value = .ok after) : Layout after := by
  unfold ArrayStore.set at written
  split at written
  · cases written
  · split at written
    · rename_i inside
      cases written
      exact ⟨by simpa using Nat.le_trans layout.dense_le (Nat.le_max_left ..), layout.increasing,
        fun entry member => ⟨by simpa using (layout.apart entry member).1,
          Nat.lt_of_lt_of_le (layout.apart entry member).2 (Nat.le_max_left ..)⟩⟩
    · rename_i beyond
      split at written
      · cases written
        have parts := absorb_layout (max store.length (index + 1))
          (extend store.dense index value) layout.increasing
          (by rw [size_extend _ _ _ (by omega)]; exact Nat.le_max_right ..)
          (fun entry member =>
            Nat.lt_of_lt_of_le (layout.apart entry member).2 (Nat.le_max_left ..))
        exact ⟨parts.1, parts.2.1, parts.2.2⟩
      · rename_i far
        cases written
        refine ⟨Nat.le_trans layout.dense_le (Nat.le_max_left ..),
          layout.increasing.sparseInsert index value, ?_⟩
        intro entry member
        rcases mem_sparseInsert member with equal | member
        · subst equal
          simp only
          omega
        · have := layout.apart entry member
          simp only
          omega

theorem push {store after : ArrayStore} {value : Value} {length : Nat} (layout : Layout store)
    (pushed : store.push value = .ok (after, length)) : Layout after := by
  unfold ArrayStore.push at pushed
  cases written : store.set store.length value with
  | error error => simp [written, bind, Except.bind] at pushed
  | ok extended =>
      simp only [written, bind, Except.bind, pure, Except.pure, Except.ok.injEq,
        Prod.mk.injEq] at pushed
      exact pushed.1 ▸ layout.set written

theorem setLength {store after : ArrayStore} {length : Nat} (layout : Layout store)
    (changed : store.setLength length = .ok after) : Layout after := by
  unfold ArrayStore.setLength at changed
  split at changed
  · cases changed
  · cases changed
    refine ⟨by simp, layout.increasing.filter _, ?_⟩
    intro entry member
    obtain ⟨stored, kept⟩ := List.mem_filter.mp member
    have bounds := layout.apart entry stored
    have inside : entry.1 < length := by simpa using kept
    refine ⟨?_, inside⟩
    simp only [Array.take_eq_extract, Array.size_extract]
    omega

theorem setNamed {store : ArrayStore} (layout : Layout store) (key : String) (value : Value) :
    Layout (store.setNamed key value) :=
  ⟨layout.dense_le, layout.increasing, layout.apart⟩

theorem sparseGet?_of_le {store : ArrayStore} (layout : Layout store) {index : Nat}
    (inside : index ≤ store.dense.size) : sparseGet? index store.sparse = none :=
  sparseGet?_eq_none fun entry member => by
    have := (layout.apart entry member).1
    omega

end Layout

/-! ## Arrays that the operations build -/

/-- The arrays that are built from a list of elements by writing elements,
lengths and named properties. -/
inductive Reachable : ArrayStore → Prop where
  | ofList (elements : List Value) : Reachable (ofList elements)
  | set {store after : ArrayStore} {index : Nat} {value : Value} :
      Reachable store → store.set index value = .ok after → Reachable after
  | push {store after : ArrayStore} {value : Value} {length : Nat} :
      Reachable store → store.push value = .ok (after, length) → Reachable after
  | setLength {store after : ArrayStore} {length : Nat} :
      Reachable store → store.setLength length = .ok after → Reachable after
  | setNamed {store : ArrayStore} (key : String) (value : Value) :
      Reachable store → Reachable (store.setNamed key value)

theorem Reachable.layout {store : ArrayStore} (reachable : Reachable store) : Layout store := by
  induction reachable with
  | ofList elements => exact Layout.ofList elements
  | set _ written layout => exact layout.set written
  | push _ pushed layout => exact layout.push pushed
  | setLength _ changed layout => exact layout.setLength changed
  | setNamed key value _ layout => exact layout.setNamed key value

/-! ## Read over write -/

/-- Whether a write to `index` is lost. The write brings the dense elements up
to an index that is stored apart, and the element that was stored there is
written over the new one. -/
def losesWrite (store : ArrayStore) (index : Nat) : Bool :=
  store.dense.size ≤ index && index - store.dense.size ≤ maxGap &&
    (sparseGet? index store.sparse).isSome

theorem exists_set (store : ArrayStore) {index : Nat} (value : Value)
    (inside : index < maxLength) : ∃ after, store.set index value = .ok after := by
  unfold set
  rw [if_neg (Nat.not_le.mpr inside)]
  split
  · exact ⟨_, rfl⟩
  · split <;> exact ⟨_, rfl⟩

theorem length_set {store after : ArrayStore} {index : Nat} {value : Value}
    (written : store.set index value = .ok after) :
    after.length = max store.length (index + 1) := by
  unfold set at written
  split at written
  · cases written
  · split at written
    · cases written
      rfl
    · split at written <;> cases written <;> rfl

theorem get?_set {store after : ArrayStore} {index : Nat} {value : Value} (layout : Layout store)
    (written : store.set index value = .ok after) (other : Nat) :
    (after.get? other).getD .undefined =
      if other = index ∧ store.losesWrite index = false then value
      else (store.get? other).getD .undefined := by
  unfold set at written
  split at written
  · cases written
  · split at written
    · rename_i inside
      cases written
      have kept : store.losesWrite index = false := by
        have : ¬ store.dense.size ≤ index := by omega
        simp [losesWrite, this]
      by_cases equal : other = index
      · subst equal
        simp [get?, inside, kept]
      · simp [get?, equal, Ne.symm equal]
    · rename_i beyond
      split at written
      · rename_i near
        cases written
        rw [get?_absorb _ _ _ layout.increasing, getElem?_extend _ _ _ _ (by omega)]
        have lost : store.losesWrite index = (sparseGet? index store.sparse).isSome := by
          simp [losesWrite, near, Nat.le_of_not_lt beyond]
        by_cases withinDense : other < store.dense.size
        · have absent := layout.sparseGet?_of_le (Nat.le_of_lt withinDense)
          have different : other ≠ index := by omega
          simp [get?, withinDense, absent, different]
        · rw [get?, if_neg withinDense, if_neg withinDense, lost]
          by_cases equal : other = index
          · subst equal
            cases sparseGet? other store.sparse <;> simp
          · by_cases before : other < index
            · cases sparseGet? other store.sparse <;> simp [equal, before]
            · simp [equal, before]
      · rename_i far
        cases written
        have kept : store.losesWrite index = false := by
          simp [losesWrite, far]
        rw [get?, get?, sparseGet?_sparseInsert]
        by_cases equal : other = index
        · subst equal
          simp [kept, beyond]
        · simp [equal]

/-- A write is read back, and no other element and no other part of the length
changes; only a write that is lost leaves its own element as it was. -/
theorem get_set_of_reachable {store after : ArrayStore} {index : Nat} {value : Value}
    (reachable : Reachable store) (written : store.set index value = .ok after) :
    after.length = max store.length (index + 1) ∧
      (∀ other, other ≠ index → after.get other = store.get other) ∧
      after.get index = if store.losesWrite index then store.get index else value := by
  refine ⟨length_set written, fun other different => ?_, ?_⟩
  · have read := get?_set reachable.layout written other
    rwa [if_neg fun both => different both.1] at read
  · have read := get?_set reachable.layout written index
    cases lost : store.losesWrite index with
    | true => simpa [get, lost] using read
    | false => simpa [get, lost] using read

/-- An element is stored apart, and the dense ones have come close to it. -/
def stranded : ArrayStore := { dense := #[.null], sparse := [(1025, .null)], length := 1026 }

theorem reachable_stranded : Reachable stranded := by
  have far : (ofList []).set 1025 .null = .ok { sparse := [(1025, .null)], length := 1026 } := rfl
  have near : ArrayStore.set { sparse := [(1025, .null)], length := 1026 } 0 .null =
      .ok stranded := rfl
  exact ((Reachable.ofList []).set far).set near

/-- Next to the dense elements a write is read back, and the element that is
stored apart is moved without a change. -/
theorem get_set_of_reachable_stranded :
    ∃ after, stranded.set 1024 (.boolean true) = .ok after ∧ after.length = 1026 ∧
      after.get 1024 = .boolean true ∧ after.get 1025 = .null := by
  obtain ⟨after, written⟩ :=
    exists_set stranded (.boolean true) (show 1024 < maxLength by decide)
  obtain ⟨length, others, same⟩ := get_set_of_reachable reachable_stranded written
  exact ⟨after, written, length, same, others 1025 (by decide)⟩

/-- A write is not always read back: one to the element that is stored apart is
lost. -/
theorem not_get_set_same : ¬ ∀ (store after : ArrayStore) (index : Nat) (value : Value),
    Reachable store → store.set index value = .ok after → after.get index = value := by
  intro readsBack
  obtain ⟨after, written⟩ :=
    exists_set stranded (.boolean true) (show 1025 < maxLength by decide)
  have kept : (after.get? 1025).getD .undefined = .null :=
    get?_set reachable_stranded.layout written 1025
  have new : after.get 1025 = .boolean true := readsBack _ _ _ _ reachable_stranded written
  exact Value.noConfusion (kept.symm.trans new)

end ExprScript.ArrayStore
