import ExprScript.Value.Record
import Mathlib

/-! # Entries of a record

Setting a property changes the value of its key and of no other one. The keys stay
in the order in which they were first set, and deleting a property takes its key out.
-/

namespace ExprScript

namespace Record

theorem set_of_new {record : Record} {key : String} (new : ¬ record.has key = true)
    (value : Value) : (record.set key value).entries = record.entries ++ [(key, value)] := by
  rw [set, dif_neg new]

theorem entries_setAll {record : Record} {entries : List (String × Value)}
    (distinct : ((record.entries ++ entries).map (·.1)).Nodup) :
    (record.setAll entries).entries = record.entries ++ entries := by
  induction entries generalizing record with
  | nil => exact (List.append_nil _).symm
  | cons entry entries induction =>
      rcases entry with ⟨key, value⟩
      have new : ¬ record.has key = true := by
        rw [← mem_keys_iff]
        intro member
        rw [List.map_append, List.nodup_append] at distinct
        exact distinct.2.2 key member key (List.mem_cons_self ..) rfl
      have added := set_of_new new value
      have parts : record.entries ++ (key, value) :: entries =
          (record.set key value).entries ++ entries := by
        rw [added, List.append_assoc, List.singleton_append]
      rw [parts] at distinct ⊢
      exact induction distinct

theorem keys_set (record : Record) (key : String) (value : Value) :
    (record.set key value).keys =
      if record.has key then record.keys else record.keys ++ [key] := by
  unfold set keys
  split
  · exact map_replaceEntry ..
  · exact List.map_append

private theorem lookup_replaceEntry {key : String} (value : Value)
    {entries : List (String × Value)} (present : key ∈ entries.map (·.1)) (name : String) :
    (replaceEntry key value entries).lookup name =
      if name = key then some value else entries.lookup name := by
  induction entries with
  | nil => cases present
  | cons entry others induction =>
      rcases entry with ⟨first, old⟩
      unfold replaceEntry
      by_cases found : first = key
      · subst found
        rw [if_pos rfl, List.lookup_cons, List.lookup_cons]
        by_cases same : name = first
        · simp [same]
        · simp [same, beq_eq_false_iff_ne.mpr same]
      · have later : key ∈ others.map (·.1) :=
          (List.mem_cons.mp present).resolve_left fun equal => found equal.symm
        rw [if_neg found, List.lookup_cons, List.lookup_cons, induction later]
        by_cases same : name = first
        · subst same
          simp [found]
        · rw [beq_eq_false_iff_ne.mpr same]

theorem get?_set (record : Record) (key : String) (value : Value) (name : String) :
    (record.set key value).get? name = if name = key then some value else record.get? name := by
  unfold set get?
  split
  · next present => exact lookup_replaceEntry value ((record.mem_keys_iff key).mpr present) name
  · next absent =>
      rw [List.lookup_append]
      by_cases same : name = key
      · subst same
        have missing : record.entries.lookup name = none :=
          Option.not_isSome_iff_eq_none.mp absent
        simp [missing]
      · simp [same, List.lookup_cons, beq_eq_false_iff_ne.mpr same]

theorem setAll_append {record : Record} {first others : List (String × Value)} :
    record.setAll (first ++ others) = (record.setAll first).setAll others :=
  List.foldl_append

theorem keys_setAll (record : Record) (entries : List (String × Value)) :
    (record.setAll entries).keys =
      record.keys ++ ((entries.map (·.1)).filter (· ∉ record.keys)).eraseDups := by
  induction entries generalizing record with
  | nil => exact (List.append_nil _).symm
  | cons entry entries induction =>
      rcases entry with ⟨key, value⟩
      have first : (record.setAll ((key, value) :: entries)).keys =
          ((record.set key value).setAll entries).keys := rfl
      rw [first, induction, keys_set]
      by_cases present : record.has key = true
      · have old : key ∈ record.keys := (record.mem_keys_iff key).mpr present
        simp [present, old]
      · have new : key ∉ record.keys := fun member =>
          present ((record.mem_keys_iff key).mp member)
        have others : (entries.map (·.1)).filter (· ∉ record.keys ++ [key]) =
            ((entries.map (·.1)).filter (· ∉ record.keys)).filter fun name => !name == key := by
          rw [List.filter_filter]
          apply List.filter_congr
          intro name _
          by_cases same : name = key <;> simp [same]
        rw [if_neg present, others, List.map_cons, List.filter_cons_of_pos (by simpa using new),
          List.eraseDups_cons, List.append_assoc, List.singleton_append]

theorem keys_ofEntries (entries : List (String × Value)) :
    (ofEntries entries).keys = (entries.map (·.1)).eraseDups := by
  rw [ofEntries, keys_setAll]
  simp [keys]

/-! ## Deleting -/

theorem nodup_keys (record : Record) : record.keys.Nodup := record.distinct

theorem delete_eq_has (record : Record) (key : String) :
    (record.delete key).2 = record.has key := by
  unfold delete
  split
  · next present => exact present.symm
  · next absent => exact (Bool.eq_false_iff.mpr absent).symm

theorem keys_delete (record : Record) (key : String) :
    (record.delete key).1.keys = record.keys.erase key := by
  unfold delete
  split
  · unfold keys
    rw [List.erase_eq_eraseP', List.eraseP_map]
    rfl
  · next absent =>
      have notListed : key ∉ record.keys := fun member =>
        absent ((record.mem_keys_iff key).mp member)
      exact (List.erase_of_not_mem notListed).symm

theorem entries_delete_sublist (record : Record) (key : String) :
    (record.delete key).1.entries.Sublist record.entries := by
  unfold delete
  split
  · exact List.eraseP_sublist
  · exact List.Sublist.refl _

theorem get?_delete (record : Record) (key name : String) :
    (record.delete key).1.get? name = if name = key then none else record.get? name := by
  have listed : (record.delete key).1.has name = true ↔ name ≠ key ∧ record.has name = true := by
    rw [← mem_keys_iff, keys_delete, record.nodup_keys.mem_erase_iff, mem_keys_iff]
  split
  · next same =>
      rw [← Option.not_isSome_iff_eq_none]
      exact fun present => (listed.mp present).1 same
  · next different =>
      cases found : (record.delete key).1.get? name with
      | some value =>
          have member := (mem_entries_iff _ _ _).mpr found
          have before := (record.entries_delete_sublist key).subset member
          exact ((mem_entries_iff _ _ _).mp before).symm
      | none =>
          refine (Option.not_isSome_iff_eq_none.mp fun present => ?_).symm
          have still := listed.mpr ⟨different, present⟩
          rw [has, found] at still
          cases still

/-! ## Setting several properties -/

theorem get?_setAll (record : Record) (entries : List (String × Value)) (name : String) :
    (record.setAll entries).get? name = (entries.reverse.lookup name).or (record.get? name) := by
  induction entries generalizing record with
  | nil => rfl
  | cons entry entries induction =>
      rcases entry with ⟨key, value⟩
      have first : (record.setAll ((key, value) :: entries)).get? name =
          ((record.set key value).setAll entries).get? name := rfl
      rw [first, induction, get?_set, List.reverse_cons, List.lookup_append]
      by_cases same : name = key
      · subst same
        cases entries.reverse.lookup name <;> simp
      · simp [same, List.lookup_cons, beq_eq_false_iff_ne.mpr same]

end Record

end ExprScript
