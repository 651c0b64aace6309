import ExprScript.Text.Units
import ExprScript.Value.Convert

/-!
Three notions of equality, and the order of values.
-/

namespace ExprScript

def Number.compare? (first second : Float) : Option Ordering :=
  if first < second then some .lt
  else if second < first then some .gt
  else if first == second then some .eq
  else none

namespace Value

/-- Equality without conversion: values of the heap are equal to themselves
only. -/
def strictEqual : Value → Value → Bool
  | .undefined, .undefined | .null, .null => true
  | .boolean first, .boolean second => first == second
  | .number first, .number second => first == second
  | .string first, .string second => first == second
  | .array first, .array second => first == second
  | .object first, .object second => first == second
  | .function first, .function second => first == second
  | .regExp first, .regExp second => first == second
  | _, _ => false

def ofBoolean (value : Bool) : Value := .number (if value then 1.0 else 0.0)

/-- How often a value is converted in a comparison at most. What it is converted
to is not converted again. -/
def conversions : Value → Nat
  | .boolean _ | .array _ | .object _ | .function _ | .regExp _ => 1
  | _ => 0

end Value

namespace Heap

theorem conversions_toPrimitive_lt {heap : Heap} {value : Value}
    (inHeap : value.isObjectLike = true) :
    (heap.toPrimitive value).conversions < value.conversions := by
  rw [toPrimitive, if_pos inHeap]
  cases value <;> first | exact Nat.zero_lt_one | cases inHeap

/-- Equality with conversion. The first case that fits decides, or converts one
side and compares again. -/
def looseEqual (heap : Heap) (first second : Value) : Bool :=
  if first.isNullish || second.isNullish then first.isNullish && second.isNullish
  else
    match first, second with
    | .number first, .string second => first == Number.ofText second
    | .string first, .number second => Number.ofText first == second
    | .boolean first, second => heap.looseEqual (.ofBoolean first) second
    | first, .boolean second => heap.looseEqual first (.ofBoolean second)
    | first, second =>
      if _left : first.isObjectLike && !second.isObjectLike then
        heap.looseEqual (heap.toPrimitive first) second
      else if _right : !first.isObjectLike && second.isObjectLike then
        heap.looseEqual first (heap.toPrimitive second)
      else first.strictEqual second
termination_by first.conversions + second.conversions
decreasing_by
  · exact Nat.add_lt_add_right Nat.zero_lt_one _
  · exact Nat.add_lt_add_left Nat.zero_lt_one _
  · exact Nat.add_lt_add_right (conversions_toPrimitive_lt (Bool.and_eq_true_iff.mp _left).1) _
  · exact Nat.add_lt_add_left (conversions_toPrimitive_lt (Bool.and_eq_true_iff.mp _right).2) _

def compare? (heap : Heap) (first second : Value) : Option Ordering :=
  match heap.toPrimitive first, heap.toPrimitive second with
  | .string first, .string second =>
    some (Text.compareUnits (Text.units first) (Text.units second))
  | first, second => Number.compare? (heap.toNumber first) (heap.toNumber second)

def containers (heap : Heap) : List Container :=
  (List.range heap.arrays.size).map (fun index => .array ⟨index⟩) ++
    (List.range heap.objects.size).map (fun index => .object ⟨index⟩)

def pairsOutside (heap : Heap) (assumed : List (Container × Container)) :
    List (Container × Container) :=
  (heap.containers.flatMap fun first => heap.containers.map (first, ·)).filter
    fun pair => decide (pair ∉ assumed)

theorem mem_containers_of_element {heap : Heap} {ref : ArrayRef} {value : Value}
    (member : value ∈ (heap.array ref).toList) : .array ref ∈ heap.containers := by
  by_cases inside : ref.index < heap.arrays.size
  · simp only [containers, List.mem_append, List.mem_map, List.mem_range]
    exact .inl ⟨ref.index, inside, rfl⟩
  · simp [array, Array.getElem?_eq_none (Nat.not_lt.mp inside), ArrayStore.toList] at member

theorem mem_containers_of_entry {heap : Heap} {ref : ObjectRef} {entry : String × Value}
    (member : entry ∈ (heap.object ref).entries) : .object ref ∈ heap.containers := by
  by_cases inside : ref.index < heap.objects.size
  · simp only [containers, List.mem_append, List.mem_map, List.mem_range]
    exact .inr ⟨ref.index, inside, rfl⟩
  · simp [object, Array.getElem?_eq_none (Nat.not_lt.mp inside)] at member

/-- There are fewer pairs left to enter once a pair is assumed. -/
theorem pairsOutside_lt {heap : Heap} {assumed : List (Container × Container)}
    {first second : Container} (inside : first ∈ heap.containers)
    (inside' : second ∈ heap.containers) (new : (first, second) ∉ assumed) :
    (heap.pairsOutside ((first, second) :: assumed)).length <
      (heap.pairsOutside assumed).length := by
  have fewer : heap.pairsOutside ((first, second) :: assumed) =
      (heap.pairsOutside assumed).filter fun pair => decide (pair ≠ (first, second)) := by
    simp only [pairsOutside, List.filter_filter, List.mem_cons, not_or, Bool.decide_and]
  rw [fewer]
  apply List.length_filter_lt_length_iff_exists.mpr
  refine ⟨(first, second), ?_, by simp⟩
  simp only [pairsOutside, List.mem_filter, List.mem_flatMap, List.mem_map, decide_eq_true_eq]
  exact ⟨⟨first, inside, second, inside', rfl⟩, new⟩

/-- Equality of structure, inside of the pairs of containers `assumed`. A pair
that the walk is inside of already is taken to be equal; every level enters
another pair, so that the walk comes to an end on every heap. -/
def equalWithin (heap : Heap) (assumed : List (Container × Container)) (first second : Value) :
    Bool :=
  match first, second with
  | .array first, .array second =>
    if _known : first = second ∨ (.array first, .array second) ∈ assumed then true
    else
      let left := (heap.array first).toList
      let right := (heap.array second).toList
      left.length == right.length &&
        (left.zip right).attach.all fun ⟨(a, b), _⟩ =>
          equalWithin heap ((.array first, .array second) :: assumed) a b
  | .object first, .object second =>
    if _known : first = second ∨ (.object first, .object second) ∈ assumed then true
    else
      let left := heap.object first
      let right := heap.object second
      left.size == right.size &&
        left.entries.attach.all fun ⟨(key, value), _⟩ =>
          match _found : right.get? key with
          | some other => equalWithin heap ((.object first, .object second) :: assumed) other value
          | none => false
  | .regExp first, .regExp second => heap.regExp first == heap.regExp second
  | first, second => first.strictEqual second
termination_by (heap.pairsOutside assumed).length
decreasing_by
  · next member =>
      rcases List.of_mem_zip member with ⟨inLeft, inRight⟩
      exact pairsOutside_lt (mem_containers_of_element inLeft)
        (mem_containers_of_element inRight) (not_or.mp _known).2
  · next member =>
      exact pairsOutside_lt (mem_containers_of_entry member)
        (mem_containers_of_entry ((Record.mem_entries_iff _ _ _).mpr _found)) (not_or.mp _known).2

def structuralEqual (heap : Heap) (first second : Value) : Bool :=
  heap.equalWithin [] first second

end Heap

end ExprScript
