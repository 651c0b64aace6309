import ExprScript.Eval.Call
import Mathlib

/-! # Computations that differ only in what one tree remembers

Two computations are compared on worlds that are alike except for the results
remembered about the nodes of one tree. What the left computation may remember
is bounded by a region of paths, so that a part of the tree that has not been
evaluated yet can be seen to be free of remembered results.
-/

namespace ExprScript

/-! ## Regions of a tree -/

namespace Path

def Outer (path : Path) : Prop :=
  ∀ edge ∈ path, edge ≠ .body ∧ ∀ index, edge ≠ .param index

theorem outer_nil : Outer [] := by simp [Outer]

theorem outer_cons {edge : Edge} {path : Path} :
    Outer (edge :: path) ↔ (edge ≠ .body ∧ ∀ index, edge ≠ .param index) ∧ Outer path := by
  simp [Outer]

theorem Outer.of_suffix {path other : Path} (outer : Outer other) (suffix : path <:+ other) :
    Outer path :=
  fun edge member => outer edge (suffix.subset member)

def Under (path : Path) (edges : Edge → Prop) (other : Path) : Prop :=
  ∃ edge, edges edge ∧ edge :: path <:+ other

def Below (path other : Path) : Prop := path <:+ other

theorem Under.below {path other : Path} {edges : Edge → Prop}
    (under : Under path edges other) : Below path other := by
  obtain ⟨edge, -, suffix⟩ := under
  exact (List.suffix_cons edge path).trans suffix

theorem Under.apart {path other : Path} {left right : Edge → Prop}
    (apart : ∀ edge, left edge → ¬ right edge) (under : Under path left other) :
    ¬ Under path right other := by
  obtain ⟨edge, holds, suffix⟩ := under
  rintro ⟨edge', holds', suffix'⟩
  have same : edge :: path = edge' :: path :=
    (List.suffix_of_suffix_length_le suffix suffix' (by simp)).eq_of_length (by simp)
  rw [List.cons.injEq] at same
  exact apart edge holds (same.1 ▸ holds')

theorem below_cons_iff {edge : Edge} {path other : Path} :
    Below (edge :: path) other ↔ Under path (· = edge) other := by
  simp [Below, Under]

end Path

open ExprScript.Path

/-! ## Worlds that are alike -/

theorem Memo.get?_cons_of_ne {node key : NodeId} (different : node ≠ key) (value : Value)
    (memo : Memo) : Memo.get? ((key, value) :: memo) node = memo.get? node := by
  rw [Memo.get?, List.lookup, beq_false_of_ne different]
  rfl

/-- Two worlds differ at most in the results that `tree` remembers. -/
structure World.Alike (tree : Nat) (left right : World) : Prop where
  heap : left.heap = right.heap
  log : left.log = right.log
  nextTree : left.nextTree = right.nextTree
  memo : ∀ node : NodeId, node.tree ≠ tree → left.memo.get? node = right.memo.get? node

namespace World

theorem Alike.refl (tree : Nat) (world : World) : Alike tree world world :=
  ⟨rfl, rfl, rfl, fun _ _ => rfl⟩

/-- Outside of the region, and of arrow functions, the tree remembers the same
results as before. -/
def Keeps (tree : Nat) (region : Path → Prop) (before after : World) : Prop :=
  ∀ path : Path, path.Outer → ¬ region path →
    after.memo.get? ⟨tree, path⟩ = before.memo.get? ⟨tree, path⟩

def Fresh (tree : Nat) (region : Path → Prop) (world : World) : Prop :=
  ∀ path : Path, path.Outer → region path → world.memo.get? ⟨tree, path⟩ = none

theorem Keeps.refl (tree : Nat) (region : Path → Prop) (world : World) :
    Keeps tree region world world :=
  fun _ _ _ => rfl

theorem Keeps.trans {tree : Nat} {region : Path → Prop} {first second third : World}
    (left : Keeps tree region first second) (right : Keeps tree region second third) :
    Keeps tree region first third :=
  fun path outer outside => (right path outer outside).trans (left path outer outside)

theorem Keeps.mono {tree : Nat} {region wider : Path → Prop} {before after : World}
    (keeps : Keeps tree region before after) (within : ∀ path, region path → wider path) :
    Keeps tree wider before after :=
  fun path outer outside => keeps path outer fun inside => outside (within path inside)

end World

open World

def EvalWorld {α : Type} : EStateM.Result Failure World α → World
  | .ok _ world => world
  | .error _ world => world

/-- The same value or the same failure, in worlds that are alike. -/
inductive SameResult (tree : Nat) {α : Type} :
    EStateM.Result Failure World α → EStateM.Result Failure World α → Prop
  | ok (value : α) {left right : World} :
      Alike tree left right → SameResult tree (.ok value left) (.ok value right)
  | error (failure : Failure) {left right : World} :
      Alike tree left right → SameResult tree (.error failure left) (.error failure right)

/-- On worlds that are alike the two computations have the same result, and the
left one remembers results of the region only. The left computation may count
on the region being fresh if it uses what is remembered. -/
def Simulates (tree : Nat) (region : Path → Prop) (fresh : Bool) {α : Type}
    (left right : Eval α) : Prop :=
  ∀ before before' : World, Alike tree before before' →
    (fresh = true → Fresh tree region before) →
      SameResult tree (left before) (right before') ∧
        Keeps tree region before (EvalWorld (left before))

/-- A computation that neither sees nor changes what the tree remembers about
nodes outside of its arrow functions. -/
def Neutral (tree : Nat) {α : Type} (action : Eval α) : Prop :=
  Simulates tree (fun _ => False) false action action

namespace Simulates

variable {tree : Nat} {region : Path → Prop} {fresh : Bool} {α β : Type}

theorem mono {wider : Path → Prop} {left right : Eval α}
    (simulates : Simulates tree region fresh left right)
    (within : ∀ path, region path → wider path) : Simulates tree wider fresh left right := by
  intro before before' alike isFresh
  have result := simulates before before' alike fun uses path outer inside =>
    isFresh uses path outer (within path inside)
  exact ⟨result.1, result.2.mono within⟩

theorem bind (first second : Path → Prop) {left right : Eval α} {next next' : α → Eval β}
    (start : Simulates tree first fresh left right)
    (rest : ∀ value, Simulates tree second fresh (next value) (next' value))
    (apart : ∀ path, first path → ¬ second path)
    (within : ∀ path, first path ∨ second path → region path) :
    Simulates tree region fresh (left >>= next) (right >>= next') := by
  intro before before' alike isFresh
  obtain ⟨same, keeps⟩ := start before before' alike fun uses path outer inside =>
    isFresh uses path outer (within path (.inl inside))
  simp only [Bind.bind, EStateM.bind]
  cases leftRun : left before with
  | error failure world =>
      rw [leftRun] at same keeps
      cases rightRun : right before' with
      | ok value world' => rw [rightRun] at same; cases same
      | error failure' world' =>
          rw [rightRun] at same
          cases same with
          | error _ alike' =>
              exact ⟨.error _ alike', keeps.mono fun path inside => within path (.inl inside)⟩
  | ok value world =>
      rw [leftRun] at same keeps
      cases rightRun : right before' with
      | error failure' world' => rw [rightRun] at same; cases same
      | ok value' world' =>
          rw [rightRun] at same
          cases same with
          | ok _ alike' =>
              -- What the first computation has remembered lies apart from the
              -- region that the second one needs.
              have stillFresh : fresh = true → Fresh tree second world := by
                intro uses path outer inside
                have outside : ¬ first path := fun holds => apart path holds inside
                have kept : world.memo.get? ⟨tree, path⟩ = before.memo.get? ⟨tree, path⟩ :=
                  keeps path outer outside
                rw [kept]
                exact isFresh uses path outer (within path (.inr inside))
              obtain ⟨same', keeps'⟩ := rest value world world' alike' stillFresh
              exact ⟨same', (keeps.mono fun path inside => within path (.inl inside)).trans
                (keeps'.mono fun path inside => within path (.inr inside))⟩

theorem of_neutral {action : Eval α} (neutral : Neutral tree action) :
    Simulates tree region fresh action action := by
  intro before before' alike _
  obtain ⟨same, keeps⟩ := neutral before before' alike (by simp)
  exact ⟨same, keeps.mono (by simp)⟩

theorem after {action : Eval α} {next next' : α → Eval β} (neutral : Neutral tree action)
    (rest : ∀ value, Simulates tree region fresh (next value) (next' value)) :
    Simulates tree region fresh (action >>= next) (action >>= next') :=
  bind (fun _ => False) region (of_neutral neutral) rest (by simp) (by simp)

theorem andThen {left right : Eval α} {next : α → Eval β}
    (start : Simulates tree region fresh left right) (neutral : ∀ value, Neutral tree (next value)) :
    Simulates tree region fresh (left >>= next) (right >>= next) :=
  bind region (fun _ => False) start (fun value => of_neutral (neutral value)) (by simp)
    (by simp)

/-- The two steps belong to parts that different edges lead to. -/
theorem bindUnder {path : Path} {first : Edge → Prop} (second : Edge → Prop)
    {left right : Eval α} {next next' : α → Eval β}
    (start : Simulates tree (Under path first) fresh left right)
    (apart : ∀ edge, first edge → ¬ second edge)
    (rest : ∀ value, Simulates tree (Under path second) fresh (next value) (next' value)) :
    Simulates tree (Under path fun edge => first edge ∨ second edge) fresh
      (left >>= next) (right >>= next') := by
  refine bind _ _ start rest (fun path holds => holds.apart apart) ?_
  rintro other (⟨edge, holds, suffix⟩ | ⟨edge, holds, suffix⟩)
  · exact ⟨edge, .inl holds, suffix⟩
  · exact ⟨edge, .inr holds, suffix⟩

end Simulates

/-! ## Steps that remember nothing -/

namespace Neutral

variable {tree : Nat} {α β : Type}

theorem bind {action : Eval α} {next : α → Eval β} (start : Neutral tree action)
    (rest : ∀ value, Neutral tree (next value)) : Neutral tree (action >>= next) :=
  Simulates.after start rest

theorem pure (value : α) : Neutral tree (Pure.pure value : Eval α) :=
  fun before _ alike _ => ⟨.ok value alike, Keeps.refl tree _ before⟩

theorem throw (failure : Failure) : Neutral tree (MonadExcept.throw failure : Eval α) :=
  fun before _ alike _ => ⟨.error failure alike, Keeps.refl tree _ before⟩

theorem raise (cause : Cause) (position : Position) :
    Neutral tree (Eval.raise cause position : Eval α) :=
  throw _

theorem ofExcept (result : Except Error α) : Neutral tree (Eval.ofExcept result) := by
  cases result with
  | error error => exact throw _
  | ok value => exact pure value

theorem heap : Neutral tree Eval.heap := by
  intro before before' alike _
  refine ⟨?_, Keeps.refl tree _ before⟩
  change SameResult tree (.ok before.heap before) (.ok before'.heap before')
  rw [← alike.heap]
  exact .ok _ alike

theorem inspect (read : Heap → α) : Neutral tree (Eval.inspect read) :=
  bind heap fun _ => pure _

/-- A step that changes the heap, the log or the number of trees, and looks at
nothing else. -/
theorem modifyGet (step : World → α × World)
    (result : ∀ left right, Alike tree left right → (step left).1 = (step right).1)
    (alike : ∀ left right, Alike tree left right → Alike tree (step left).2 (step right).2)
    (memo : ∀ world, (step world).2.memo = world.memo) :
    Neutral tree (MonadStateOf.modifyGet step : Eval α) := by
  intro before before' same _
  change SameResult tree (.ok (step before).1 (step before).2)
      (.ok (step before').1 (step before').2) ∧ Keeps tree _ before (step before).2
  rw [result before before' same]
  exact ⟨.ok _ (alike before before' same), fun path _ _ => by rw [memo]⟩

theorem modifyHeap (change : Heap → Heap) : Neutral tree (Eval.modifyHeap change) :=
  modifyGet (fun world => ((), { world with heap := change world.heap })) (fun _ _ _ => rfl)
    (fun _ _ alike => ⟨congrArg change alike.heap, alike.log, alike.nextTree, alike.memo⟩)
    fun _ => rfl

theorem setHeap (heap : Heap) : Neutral tree (Eval.setHeap heap) :=
  modifyHeap fun _ => heap

theorem allocate (new : Heap → α × Heap) : Neutral tree (Eval.allocate new) :=
  modifyGet (fun world => ((new world.heap).1, { world with heap := (new world.heap).2 }))
    (fun _ _ alike => by rw [alike.heap])
    (fun _ _ alike => ⟨by rw [alike.heap], alike.log, alike.nextTree, alike.memo⟩)
    fun _ => rfl

theorem note (value : Value) : Neutral tree (Eval.note value) :=
  modifyGet (fun world => ((), { world with log := { value, heap := world.heap } :: world.log }))
    (fun _ _ _ => rfl)
    (fun _ _ alike => ⟨alike.heap, by rw [alike.heap, alike.log], alike.nextTree, alike.memo⟩)
    fun _ => rfl

theorem anchored (position : Position) {action : Eval α} (neutral : Neutral tree action) :
    Neutral tree (Eval.anchored position action) := by
  intro before before' alike isFresh
  obtain ⟨same, keeps⟩ := neutral before before' alike isFresh
  simp only [Eval.anchored, EStateM.run]
  generalize action before = left at same keeps
  generalize action before' = right at same
  cases same with
  | ok value alike' => exact ⟨.ok value alike', keeps⟩
  | error failure alike' =>
      cases failure with
      | raised error => exact ⟨.error _ alike', keeps⟩
      | exhausted => exact ⟨.error _ alike', keeps⟩

theorem newArray (elements : List Value) : Neutral tree (Eval.newArray elements) :=
  bind (allocate _) fun _ => pure _

theorem newObject (record : Record) : Neutral tree (Eval.newObject record) :=
  bind (allocate _) fun _ => pure _

theorem readProperty (position : Position) (object : Value) (key : String) :
    Neutral tree (Eval.readProperty position object key) :=
  bind heap fun _ => anchored position (ofExcept _)

theorem writeProperty (position : Position) (object : Value) (key : String) (value : Value) :
    Neutral tree (Eval.writeProperty position object key value) :=
  bind heap fun _ => bind (anchored position (ofExcept _)) fun _ => setHeap _

theorem applyBinary (position : Position) (op : BinaryOp) (left right : Value) :
    Neutral tree (Eval.applyBinary position op left right) :=
  bind heap fun _ => anchored position (ofExcept _)

theorem spreadValues (position : Position) (value : Value) :
    Neutral tree (Eval.spreadValues position value) :=
  bind heap fun _ => anchored position (ofExcept _)

theorem nullishTarget (position : Position) (value : Value) :
    Neutral tree (Eval.nullishTarget position value : Eval α) :=
  bind (inspect _) fun _ => raise _ _

theorem templateStrings (quasis : List Quasi) : Neutral tree (Eval.templateStrings quasis) :=
  bind (newArray _) fun _ => bind (allocate _) fun _ => pure _

end Neutral

end ExprScript
