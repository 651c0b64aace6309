import ExprScript.Eval.Basic
import ExprScript.Proofs.Growth
import ExprScript.Proofs.Memo.Evaluation
import ExprScript.Proofs.Outcome

/-! # What a pattern does to the world

While a pattern takes a value apart, it writes to no variable and changes nothing
that is on the heap. It takes new places for its rests, and it evaluates its defaults
and computed keys, each in a frame of its own. Whatever else happens is their doing.
-/

namespace ExprScript

/-! ## Worlds with new containers -/

/-- The later world has new arrays and objects, and is the same otherwise. -/
structure World.GrowsTo (world later : World) : Prop where
  grows : world.heap.Grows later.heap
  same : later = { world with heap :=
    { world.heap with arrays := later.heap.arrays, objects := later.heap.objects } }

theorem World.GrowsTo.refl (world : World) : world.GrowsTo world := ⟨.refl _, rfl⟩

theorem World.GrowsTo.trans {world middle later : World} (first : world.GrowsTo middle)
    (second : middle.GrowsTo later) : world.GrowsTo later := by
  refine ⟨first.grows.trans second.grows, ?_⟩
  rw [second.same, first.same]

/-! ## The expressions in a pattern -/

/-- The expression that gives the key, if it is computed. -/
def PropertyKey.embedded : PropertyKey → List Expr
  | .computed key => [key]
  | .name _ | .string _ | .number _ => []

namespace Pattern

mutual

/-- The defaults and the computed keys of a pattern. -/
def embedded : Pattern → List Expr
  | .ident _ => []
  | .array _ elements => elementsEmbedded elements
  | .object _ properties => propertiesEmbedded properties
  | .rest _ argument => argument.embedded
  | .withDefault _ target fallback => fallback :: target.embedded

def elementsEmbedded : List (Option Pattern) → List Expr
  | [] => []
  | none :: elements => elementsEmbedded elements
  | some pattern :: elements => pattern.embedded ++ elementsEmbedded elements

def propertiesEmbedded : List PatternProperty → List Expr
  | [] => []
  | .field _ key pattern _ :: properties =>
    key.embedded ++ pattern.embedded ++ propertiesEmbedded properties
  | .rest _ argument :: properties => argument.embedded ++ propertiesEmbedded properties

end

end Pattern

namespace Eval

/-- Evaluates a default or a computed key. A new frame shows the names that the
pattern has bound so far. -/
def evalEmbedded (context : Context) (path : Path) (bindings : Record) (expr : Expr) :
    Eval Value := do
  valueOf (eval (← patternContext context bindings) .value path expr)

def supply (context : Context) (path : Path) (bindings : Record) (value : Value)
    (fallback : Expr) : Eval Value :=
  if value.isUndefined then evalEmbedded context path bindings fallback else pure value

theorem bind_withDefault (context : Context) (path : Path) (bindings : Record) (value : Value)
    (loc : Span) (target : Pattern) (fallback : Expr) :
    bind context path bindings value (.withDefault loc target fallback) = (do
      let value ← supply context (.value :: path) bindings value fallback
      bind context (.target :: path) bindings value target) := by
  rw [bind, supply]
  split
  · exact (bind_assoc ..).symm
  · exact (pure_bind ..).symm

theorem evalPatternKey_computed (context : Context) (path : Path) (bindings : Record)
    (key : Expr) : evalPatternKey context path bindings (.computed key) = (do
      let value ← evalEmbedded context path bindings key
      inspect fun heap => heap.toPropertyKey value) := by
  rw [evalPatternKey]
  exact (bind_assoc ..).symm

/-! ## Steps -/

inductive BindStep (context : Context) (embedded : List Expr) : World → World → Prop
  | newArray (world : World) (values : List Value) : BindStep context embedded world
      { world with heap := (world.heap.newArray (.ofList values)).2 }
  | newObject (world : World) (record : Record) : BindStep context embedded world
      { world with heap := (world.heap.newObject record).2 }
  | evaluate (world : World) (path : Path) (bindings : Record) (expr : Expr)
      (member : expr ∈ embedded) : BindStep context embedded world
      (worldAfter (evalEmbedded context path bindings expr world))

/-- Any number of steps. -/
def Walks (context : Context) (embedded : List Expr) : World → World → Prop :=
  Relation.ReflTransGen (BindStep context embedded)

def Advances (context : Context) (embedded : List Expr) (start : World) {α : Type}
    (action : Eval α) : Prop :=
  Upholds (fun _ => True) (Walks context embedded start) action

namespace Advances

variable {context : Context} {embedded : List Expr} {start : World} {α β : Type}

theorem walks {action : Eval α} (advances : Advances context embedded start action) :
    Walks context embedded start (worldAfter (action start)) := by
  have outcome := advances start .refl
  cases run : action start with
  | ok result after =>
      rw [run] at outcome
      exact outcome
  | error failure after =>
      rw [run] at outcome
      exact outcome.2

theorem of_walks {action : Eval α} (walks : ∀ world, Walks context embedded start world →
    Walks context embedded start (worldAfter (action world))) :
    Advances context embedded start action := by
  intro world walked
  have step := walks world walked
  cases run : action world with
  | ok result after =>
      rw [run] at step
      exact step
  | error failure after =>
      rw [run] at step
      exact ⟨trivial, step⟩

theorem of_unchanged {action : Eval α} (unchanged : ∀ world, worldAfter (action world) = world) :
    Advances context embedded start action :=
  of_walks fun world walked => (unchanged world).symm ▸ walked

theorem pure (result : α) : Advances context embedded start (Pure.pure result) :=
  Upholds.pure result

theorem bind {action : Eval α} {next : α → Eval β}
    (advances : Advances context embedded start action)
    (rest : ∀ value, Advances context embedded start (next value)) :
    Advances context embedded start (action >>= next) :=
  Upholds.bind advances rest

theorem inspect (read : Heap → α) : Advances context embedded start (Eval.inspect read) :=
  of_unchanged fun _ => rfl

theorem nullishTarget (position : Position) (value : Value) :
    Advances context embedded start (Eval.nullishTarget position value : Eval α) :=
  of_unchanged fun _ => rfl

theorem spreadValues (position : Position) (value : Value) :
    Advances context embedded start (Eval.spreadValues position value) := by
  apply of_unchanged
  intro world
  unfold worldAfter Eval.spreadValues Eval.heap Eval.anchored Eval.ofExcept
  simp only [Bind.bind, EStateM.bind, MonadState.get, getThe, MonadStateOf.get, EStateM.get,
    Pure.pure, EStateM.pure]
  cases world.heap.iterate value <;> rfl

theorem readProperty (position : Position) (object : Value) (key : String) :
    Advances context embedded start (Eval.readProperty position object key) := by
  apply of_unchanged
  intro world
  unfold worldAfter Eval.readProperty Eval.heap Eval.anchored Eval.ofExcept
  simp only [Bind.bind, EStateM.bind, MonadState.get, getThe, MonadStateOf.get, EStateM.get,
    Pure.pure, EStateM.pure]
  cases world.heap.getProperty object key <;> rfl

theorem newArray (values : List Value) :
    Advances context embedded start (Eval.newArray values) :=
  fun world walked => walked.tail (.newArray world values)

theorem newObject (record : Record) :
    Advances context embedded start (Eval.newObject record) :=
  fun world walked => walked.tail (.newObject world record)

theorem evalEmbedded {expr : Expr} (member : expr ∈ embedded) (path : Path) (bindings : Record) :
    Advances context embedded start (Eval.evalEmbedded context path bindings expr) :=
  of_walks fun world walked => walked.tail (.evaluate world path bindings expr member)

theorem supply {fallback : Expr} (member : fallback ∈ embedded) (path : Path) (bindings : Record)
    (value : Value) : Advances context embedded start
      (Eval.supply context path bindings value fallback) := by
  unfold Eval.supply
  split
  · exact evalEmbedded member path bindings
  · exact pure value

end Advances

/-! ## Binding goes by steps -/

section

variable (context : Context) (embedded : List Expr) (start : World)

theorem evalPatternKey_advances (path : Path) (bindings : Record) (key : PropertyKey)
    (inside : key.embedded ⊆ embedded) :
    Advances context embedded start (evalPatternKey context path bindings key) := by
  cases key with
  | computed key =>
      rw [evalPatternKey_computed]
      apply Advances.bind
      · exact .evalEmbedded (inside List.mem_cons_self) path bindings
      · intro value
        exact .inspect _
  | _ => exact .pure _

mutual

theorem bind_advances (path : Path) (bindings : Record) (value : Value) :
    ∀ pattern : Pattern, pattern.embedded ⊆ embedded →
      Advances context embedded start (bind context path bindings value pattern)
  | .ident id, _ => .pure _
  | .rest _ argument, inside => bind_advances _ bindings value argument inside
  | .withDefault _ target fallback, inside => by
      rcases List.cons_subset.mp inside with ⟨member, later⟩
      rw [bind_withDefault]
      apply Advances.bind (.supply member _ bindings value)
      intro found
      exact bind_advances _ bindings found target later
  | .array loc elements, inside => by
      rw [bind]
      split
      · exact .nullishTarget _ _
      · apply Advances.bind (.spreadValues _ _)
        intro items
        exact bindElements_advances path 0 bindings items elements inside
  | .object loc properties, inside => by
      rw [bind]
      split
      · exact .nullishTarget _ _
      · exact bindProperties_advances path 0 bindings value [] properties inside

theorem bindElements_advances (path : Path) (index : Nat) (bindings : Record)
    (items : List Value) : ∀ elements : List (Option Pattern),
      Pattern.elementsEmbedded elements ⊆ embedded →
      Advances context embedded start (bindElements context path index bindings items elements)
  | [], _ => .pure _
  | none :: elements, inside =>
      bindElements_advances path (index + 1) bindings items.tail elements inside
  | some element :: elements, inside => by
      rcases List.append_subset.mp inside with ⟨here, later⟩
      have others := fun bindings =>
        bindElements_advances path (index + 1) bindings items.tail elements later
      have first := fun path value => bind_advances path bindings value element here
      cases element with
      | rest _ argument =>
          have taken := fun path value => bind_advances path bindings value argument here
          rw [bindElements]
          apply Advances.bind (.newArray items)
          intro array
          exact Advances.bind (taken _ array) others
      | _ =>
          rw [bindElements_some _ _ _ _ _ _ _ (by simp)]
          exact Advances.bind (first _ _) others

theorem bindProperties_advances (path : Path) (index : Nat) (bindings : Record) (value : Value)
    (taken : List String) : ∀ properties : List PatternProperty,
      Pattern.propertiesEmbedded properties ⊆ embedded →
      Advances context embedded start
        (bindProperties context path index bindings value taken properties)
  | [], _ => .pure _
  | .field loc key pattern _ :: properties, inside => by
      rcases List.append_subset.mp inside with ⟨here, later⟩
      rcases List.append_subset.mp here with ⟨inKey, inPattern⟩
      rw [bindProperties]
      apply Advances.bind (evalPatternKey_advances context embedded start _ bindings key inKey)
      intro name
      apply Advances.bind (.readProperty _ _ _)
      intro item
      apply Advances.bind (bind_advances _ bindings item pattern inPattern)
      intro bindings
      exact bindProperties_advances path (index + 1) bindings value _ properties later
  | .rest _ argument :: properties, inside => by
      rcases List.append_subset.mp inside with ⟨here, later⟩
      rw [bindProperties]
      apply Advances.bind (.inspect _)
      intro entries
      apply Advances.bind (.newObject _)
      intro others
      apply Advances.bind (bind_advances _ bindings others argument here)
      intro bindings
      exact bindProperties_advances path (index + 1) bindings value taken properties later

end

end

theorem bind_walks (context : Context) (path : Path) (bindings : Record) (value : Value)
    (pattern : Pattern) (world : World) : Walks context pattern.embedded world
      (worldAfter (bind context path bindings value pattern world)) :=
  (bind_advances context pattern.embedded world path bindings value pattern
    (List.Subset.refl _)).walks

/-! ## Patterns without expressions -/

theorem Walks.growsTo {context : Context} {world later : World}
    (walks : Walks context [] world later) : world.GrowsTo later := by
  induction walks with
  | refl => exact .refl world
  | tail _ step induction =>
      cases step with
      | newArray values => exact induction.trans ⟨.newArray _ _, rfl⟩
      | newObject record => exact induction.trans ⟨.newObject _ _, rfl⟩
      | evaluate path bindings expr member => cases member

end Eval

end ExprScript
