import ExprScript.Value.Basic

/-!
Objects: properties in the order of their insertion. Overwriting a property
keeps its place; deleting and setting it again moves it to the end.
-/

namespace ExprScript

structure Record where
  entries : List (String × Value) := []
  /-- The function that created the object with `new`. -/
  constructor? : Option FunctionRef := none
  /-- Set for good once there are more properties than fit inside the object. -/
  spilled : Bool := false
  /-- No key occurs twice. -/
  distinct : (entries.map (·.1)).Nodup := by exact List.nodup_nil

namespace Record

def inlineCapacity : Nat := 8

def get? (record : Record) (key : String) : Option Value := record.entries.lookup key

def get (record : Record) (key : String) : Value := (record.get? key).getD .undefined

def has (record : Record) (key : String) : Bool := (record.get? key).isSome

def keys (record : Record) : List String := record.entries.map (·.1)

def size (record : Record) : Nat := record.entries.length

def isEmpty (record : Record) : Bool := record.entries.isEmpty

def isInline (record : Record) : Bool := !record.spilled

def replaceEntry (key : String) (value : Value) :
    List (String × Value) → List (String × Value)
  | [] => []
  | (name, old) :: others =>
    if name = key then (key, value) :: others else (name, old) :: replaceEntry key value others

@[simp] theorem map_replaceEntry (key : String) (value : Value)
    (entries : List (String × Value)) :
    (replaceEntry key value entries).map (·.1) = entries.map (·.1) := by
  induction entries with
  | nil => rfl
  | cons entry others induction =>
      unfold replaceEntry
      split
      · next equal => rw [List.map_cons, List.map_cons, equal]
      · rw [List.map_cons, List.map_cons, induction]

theorem mem_keys_iff (record : Record) (key : String) :
    key ∈ record.keys ↔ record.has key = true := by
  unfold keys has get?
  induction record.entries with
  | nil => simp
  | cons entry others induction =>
      rcases entry with ⟨name, value⟩
      by_cases equal : key = name
      · simp [equal]
      · simp only [List.map_cons, List.mem_cons, equal, false_or, induction, List.lookup_cons,
          beq_eq_false_iff_ne.mpr equal]

theorem mem_entries_iff (record : Record) (key : String) (value : Value) :
    (key, value) ∈ record.entries ↔ record.get? key = some value := by
  unfold get?
  have distinct := record.distinct
  generalize record.entries = entries at distinct ⊢
  induction entries with
  | nil => simp
  | cons entry others induction =>
      rcases entry with ⟨name, first⟩
      rcases List.nodup_cons.mp distinct with ⟨absent, later⟩
      by_cases equal : key = name
      · subst equal
        have notLater : (key, value) ∉ others := fun member =>
          absent (List.mem_map.mpr ⟨_, member, rfl⟩)
        simp [notLater, eq_comm]
      · simp only [List.mem_cons, Prod.mk.injEq, equal, false_and, false_or, induction later,
          List.lookup_cons, beq_eq_false_iff_ne.mpr equal]

theorem nodup_append_new (record : Record) {key : String} (value : Value)
    (new : ¬ record.has key = true) :
    ((record.entries ++ [(key, value)]).map (·.1)).Nodup := by
  rw [List.map_append, List.nodup_append]
  refine ⟨record.distinct, by simp, ?_⟩
  intro present member other isNew equal
  have isKey : present = key := equal.trans (List.mem_singleton.mp isNew)
  exact new ((record.mem_keys_iff key).mp (isKey ▸ member))

def set (record : Record) (key : String) (value : Value) : Record :=
  if present : record.has key then
    { record with
      entries := replaceEntry key value record.entries
      distinct := by rw [map_replaceEntry]; exact record.distinct }
  else
    { record with
      entries := record.entries ++ [(key, value)]
      spilled := record.spilled || inlineCapacity ≤ record.size
      distinct := record.nodup_append_new value present }

def delete (record : Record) (key : String) : Record × Bool :=
  if record.has key then
    ({ record with
       entries := record.entries.eraseP (·.1 == key)
       distinct := (List.eraseP_sublist.map _).nodup record.distinct }, true)
  else (record, false)

def setAll (record : Record) (entries : List (String × Value)) : Record :=
  entries.foldl (fun record (key, value) => record.set key value) record

def ofEntries (entries : List (String × Value)) : Record := setAll {} entries

end Record

end ExprScript
