import ExprScript.Grammar.Expression
import ExprScript.Proofs.Effect.Call
import ExprScript.Proofs.Growth

/-! # The length of arrays

Writes to elements and to the length of an array keep to the largest length. An array
that is created with all of its elements does not: a literal with a spread collects
them without looking at their number. So arrays that exist never grow beyond the
largest length, and a new one that is longer has its elements one after the other.
-/

namespace ExprScript

open ArrayStore

/-! ## Lengths along an evaluation -/

namespace ArrayStore

variable {before middle after : ArrayStore}

theorem Bounds.refl (store : ArrayStore) : store.Bounds store := .inr ⟨le_rfl, id⟩

theorem Bounds.trans (first : before.Bounds middle) (second : middle.Bounds after) :
    before.Bounds after := by
  rcases second with short | ⟨shorter, whole⟩
  · exact .inl short
  · rcases first with short | ⟨shorter', whole'⟩
    · exact .inl (shorter.trans short)
    · exact .inr ⟨shorter.trans shorter', fun isWhole => whole (whole' isWhole)⟩

theorem Bounds.length_le (bounds : before.Bounds after) :
    after.length ≤ max before.length maxLength := by
  rcases bounds with short | ⟨shorter, -⟩
  · exact le_max_of_le_right short
  · exact le_max_of_le_left shorter

theorem Bounds.short_or_whole (bounds : before.Bounds after)
    (holds : before.length ≤ maxLength ∨ before.IsWhole) :
    after.length ≤ maxLength ∨ after.IsWhole := by
  rcases bounds with short | ⟨shorter, whole⟩
  · exact .inl short
  · exact holds.imp shorter.trans whole

theorem set_eq_invalidLength_iff (store : ArrayStore) (index : Nat) (value : Value) :
    store.set index value = invalidLength ↔ maxLength ≤ index := by
  unfold set
  split
  · next large => exact iff_of_true rfl large
  · next small =>
      refine iff_of_false ?_ small
      dsimp only
      split
      · nofun
      · split <;> nofun

theorem setLength_eq_invalidLength_iff (store : ArrayStore) (length : Nat) :
    store.setLength length = invalidLength ↔ maxLength < length := by
  unfold setLength
  split
  · next large => exact iff_of_true rfl large
  · next small => exact iff_of_false nofun small

end ArrayStore

namespace Heap

/-- Old arrays have not grown beyond the largest length, and new ones that are longer
have their elements one after the other. -/
structure KeepsLengths (before after : Heap) : Prop where
  size : before.arrays.size ≤ after.arrays.size
  old : ∀ ref : ArrayRef, ref.index < before.arrays.size →
    (before.array ref).Bounds (after.array ref)
  new : ∀ ref : ArrayRef, before.arrays.size ≤ ref.index →
    (after.array ref).length ≤ maxLength ∨ (after.array ref).IsWhole

variable {good : FunctionValue → Prop} {before middle after : Heap}

theorem array_of_size_le {heap : Heap} {ref : ArrayRef} (outside : heap.arrays.size ≤ ref.index) :
    heap.array ref = {} := by
  unfold array
  rw [Array.getElem?_eq_none outside]
  rfl

theorem KeepsLengths.refl (heap : Heap) : heap.KeepsLengths heap where
  size := le_rfl
  old := fun ref _ => Bounds.refl (heap.array ref)
  new := by
    intro ref outside
    rw [array_of_size_le outside]
    exact .inl (Nat.zero_le _)

theorem KeepsLengths.trans (first : before.KeepsLengths middle)
    (second : middle.KeepsLengths after) : before.KeepsLengths after where
  size := first.size.trans second.size
  old := fun ref inside =>
    (first.old ref inside).trans (second.old ref (inside.trans_le first.size))
  new := by
    intro ref outside
    rcases lt_or_ge ref.index middle.arrays.size with created | later
    · exact (second.old ref created).short_or_whole (first.new ref outside)
    · exact second.new ref later

theorem Step.keepsLengths (step : before.Step good after) : before.KeepsLengths after := by
  cases step with
  | newArray store isWhole trusted =>
      refine ⟨?_, fun ref inside => ?_, fun ref outside => ?_⟩
      · exact (Nat.le_succ _).trans_eq (Array.size_push store).symm
      · rw [array_newArray, if_neg inside.ne]
        exact Bounds.refl _
      · rw [array_newArray]
        split
        · exact .inr isWhole
        · rw [array_of_size_le outside]
          exact .inl (Nat.zero_le _)
  | setArray target store bounded trusted =>
      refine ⟨Array.size_setIfInBounds.ge, fun ref inside => ?_, fun ref outside => ?_⟩
      · rw [array_setArray]
        split
        · next same =>
            rw [same.1]
            exact bounded
        · exact Bounds.refl _
      · rw [array_setArray, if_neg]
        · rw [array_of_size_le outside]
          exact .inl (Nat.zero_le _)
        · intro same
          rw [same.1] at outside
          omega
  | newObject | newFunction | newRegExp | setObject =>
      have same := KeepsLengths.refl before
      exact ⟨same.size, same.old, same.new⟩

theorem Evolves.keepsLengths (evolves : Evolves good before after) :
    before.KeepsLengths after := by
  induction evolves with
  | refl => exact KeepsLengths.refl before
  | tail _ step induction => exact induction.trans step.keepsLengths

/-! ## Writes beyond the largest length -/

/-- The write is to an element behind the largest length, or it is a length that is
larger or none at all. -/
def WritesBeyond (heap : Heap) (key : String) (value : Value) : Prop :=
  if key = "length" then
    ∀ length, arrayLength? (heap.toNumber value) = some length → maxLength < length
  else ∃ index, arrayIndex? key = some index ∧ maxLength ≤ index

theorem setProperty_fails_iff (heap : Heap) (ref : ArrayRef) (key : String) (value : Value) :
    heap.setProperty (.array ref) key value = .error { cause := .invalidArrayLength } ↔
      heap.WritesBeyond key value := by
  have outer : ∀ result : Except Error ArrayStore,
      (result >>= fun store => pure (heap.setArray ref store)) = invalidLength ↔
        result = invalidLength := by
    intro result
    cases result with
    | ok store => exact iff_of_false nofun nofun
    | error failure => exact ⟨fun equal => by cases equal; rfl, fun equal => by cases equal; rfl⟩
  refine (outer _).trans ?_
  unfold setArrayProperty WritesBeyond
  simp only [beq_iff_eq]
  split
  · cases arrayLength? (heap.toNumber value) with
    | none => exact iff_of_true rfl nofun
    | some length =>
        simp only [setLength_eq_invalidLength_iff, Option.some.injEq, forall_eq']
  · cases arrayIndex? key with
    | none => exact iff_of_false nofun (by simp)
    | some index => simp only [set_eq_invalidLength_iff, Option.some.injEq, exists_eq_left']

end Heap

/-! ## Whole evaluations -/

def Policy.lenient : Policy where
  place := fun _ => True
  error := fun _ => True
  raw := fun _ => True
  unplaced := fun _ _ => trivial
  anchored := fun _ _ => trivial
  passed := id

theorem Policy.isLenient_lenient : Policy.lenient.IsLenient := fun _ => trivial

theorem Policy.trusts_lenient (world : World) (value : Value) : world.Trusts Policy.lenient value :=
  fun _ _ _ _ => ⟨fun _ _ => .inl isLenient_lenient, .inl isLenient_lenient⟩

/-- The functions of the host change arrays by the operations on arrays only. -/
abbrev Host.KeepsToArrays (tree : Nat) (host : Host) : Prop := host.Obeys Policy.lenient tree

/-- Whether an evaluation succeeds or fails, it lets no array grow beyond the largest
length, and a new array that is longer was created with all of its elements. The
writes that fail are those that would go beyond the largest length. -/
theorem Eval.evaluate_array_length (host : Host) (tree : Nat) (keeps : host.KeepsToArrays tree)
    (expr : Expr) (scope : Scope) (useMemo : Bool) (world : World) :
    let after := worldAfter (evaluate host tree expr scope useMemo world)
    (∀ ref : ArrayRef, ref.index < world.heap.arrays.size →
      (after.heap.array ref).length ≤ max (world.heap.array ref).length maxLength) ∧
    (∀ ref : ArrayRef, world.heap.arrays.size ≤ ref.index →
      (after.heap.array ref).length ≤ maxLength ∨ (after.heap.array ref).IsWhole) ∧
    Cause.invalidArrayLength.kind = .rangeError ∧
    ∀ (heap : Heap) (ref : ArrayRef) (key : String) (value : Value),
      heap.setProperty (.array ref) key value = .error { cause := .invalidArrayLength } ↔
        heap.WritesBeyond key value := by
  intro after
  have complies : Complies Policy.lenient tree Policy.lenient.error
      (evaluate host tree expr scope useMemo) world fun value after =>
        after.Trusts Policy.lenient value :=
    evaluate_complies keeps (.inl Policy.isLenient_lenient)
      (fun frame _ => Policy.trusts_lenient world (.object frame))
      fun _ _ value _ => Policy.trusts_lenient world value
  have evolves : Heap.Evolves Policy.lenient.Function world.heap after.heap := by
    unfold Complies at complies
    unfold after
    split at complies
    · next run =>
        rw [run]
        exact complies.1.heap
    · next run =>
        rw [run]
        exact complies.1.heap
  have lengths := evolves.keepsLengths
  exact ⟨fun ref inside => (lengths.old ref inside).length_le, lengths.new, rfl,
    Heap.setProperty_fails_iff⟩

def Heap.withLongest : Heap :=
  { arrays := #[{ length := maxLength }], objects := #[.ofEntries [("a", .array ⟨0⟩)]] }

theorem Eval.evaluate_array_length_library :
    let world : World := { heap := .withLongest }
    let after := worldAfter (evaluate Library.host 0
      (.array {} [some (.spread {} (.ident { name := "a" })), some (.null {})])
      { inner := ⟨0⟩ } false world)
    (after.heap.array ⟨0⟩).length ≤ maxLength ∧
      ((after.heap.array ⟨1⟩).length ≤ maxLength ∨ (after.heap.array ⟨1⟩).IsWhole) := by
  intro world after
  have lengths := evaluate_array_length Library.host 0 (Library.host_obeys _ 0)
    (.array {} [some (.spread {} (.ident { name := "a" })), some (.null {})]) { inner := ⟨0⟩ }
    false world
  exact ⟨(lengths.1 ⟨0⟩ (by decide)).trans (max_self _).le, lengths.2.1 ⟨1⟩ le_rfl⟩

/-- A literal collects the elements of an array and one more. -/
theorem Eval.evaluate_append (host : Host) (tree : Nat) (scope : Scope) (useMemo : Bool)
    (world : World) {ref : ArrayRef} {loc spreadLoc : Span} {id : Ident} {last : NumberLiteral}
    (found : world.heap.lookup? scope id.name = some (.array ref)) :
    evaluate host tree (.array loc [some (.spread spreadLoc (.ident id)), some (.number last)])
        scope useMemo world =
      .ok (.array ⟨world.heap.arrays.size⟩) { world with
        heap := (world.heap.newArray
          (.ofList ((world.heap.array ref).toList ++ [.number last.value]))).2 } := by
  have reads : readName (rootContext host scope useMemo tree) id world =
      .ok (.array ref) world := by
    simp only [readName, rootContext, inspect, heap, Bind.bind, EStateM.bind, MonadState.get,
      getThe, MonadStateOf.get, EStateM.get, Pure.pure, EStateM.pure, found]
  simp only [evaluate, eval, evalElements, valueOf, Bind.bind, EStateM.bind, reads]
  rfl

theorem Heap.length_append (heap : Heap) (ref : ArrayRef) (last : Value) :
    ((heap.newArray (.ofList ((heap.array ref).toList ++ [last]))).2.array
      ⟨heap.arrays.size⟩).length = (heap.array ref).length + 1 := by
  rw [array_newArray, if_pos rfl]
  simp [ofList, toList]

def Expr.isAppend (name : String) : Expr → Bool
  | .array _ [some (.spread _ (.ident id)), some (.number _)] => id.name == name
  | _ => false

theorem Expr.append_of_isAppend {name : String} {expr : Expr}
    (append : expr.isAppend name = true) :
    ∃ loc spreadLoc id last, id.name = name ∧
      expr = .array loc [some (.spread spreadLoc (.ident id)), some (.number last)] := by
  unfold isAppend at append
  split at append
  · next loc spreadLoc id last => exact ⟨loc, spreadLoc, id, last, beq_iff_eq.mp append, rfl⟩
  · cases append

/-- The expression `[...a, 0]` makes an array that is longer than the largest length
from one that is not. -/
theorem Eval.not_array_length_le : ¬ ∀ (host : Host) (tree : Nat) (source : String)
    (strict : Bool) (expr : Expr) (scope : Scope) (useMemo : Bool) (world after : World)
    (value : Value), host.KeepsToArrays tree → parse source strict = .ok expr →
    (∀ ref, (world.heap.array ref).length ≤ maxLength) →
    evaluate host tree expr scope useMemo world = .ok value after →
    ∀ ref, after.heap.Reaches value (.array ref) → (after.heap.array ref).length ≤ maxLength := by
  intro keeps
  have parses : (parse "[...a, 0]").toOption.any (fun expr => expr.isAppend "a") = true := by
    decide +kernel
  cases parsed : parse "[...a, 0]" with
  | error error =>
      rw [parsed] at parses
      cases parses
  | ok expr =>
      rw [parsed] at parses
      rcases expr.append_of_isAppend parses with ⟨loc, spreadLoc, id, last, isA, rfl⟩
      have found : Heap.withLongest.lookup? { inner := ⟨0⟩ } id.name = some (.array ⟨0⟩) := by
        rw [isA]
        rfl
      have lengths : ∀ ref, (Heap.withLongest.array ref).length ≤ maxLength := by
        intro ref
        rcases ref with ⟨_ | index⟩
        · exact le_rfl
        · exact Nat.zero_le _
      have short := keeps Library.host 0 _ _ _ _ false { heap := .withLongest } _ _
        (Library.host_obeys _ 0) parsed lengths (evaluate_append _ _ _ _ _ found) _ .refl
      exact absurd ((Heap.length_append _ _ _).symm.trans_le short) (by decide)

end ExprScript
