import ExprScript.Eval.Call
import ExprScript.Proofs.Binding.Leaves
import ExprScript.Proofs.Variables

/-! # Assignments to patterns

An assignment to a pattern writes to its names after the whole pattern has taken the
value apart. If that fails, it writes to none of them.
-/

namespace ExprScript.Eval

/-- Every name of the record is assigned its value. -/
def assignAll (scope : Scope) (bindings : Record) (world : World) : World :=
  let assign := fun (heap : Heap) (name, bound) => heap.assign scope name bound
  { world with heap := bindings.entries.foldl assign world.heap }

variable {context : Context} {path : Path} {pattern : Pattern} {value : Value}
  {before middle after : World}

/-- What an assignment to a pattern does once the value is there. -/
theorem eval_destructure_eq {rhs : Expr}
    (evaluated : valueOf (eval context .value (.value :: path) rhs) before = .ok value middle)
    (use : Use) (loc : Span) : eval context use path (.destructure loc op pattern rhs) before = (do
      let bindings ← bind context (.pattern :: path) {} value pattern
      modify (assignAll context.scope bindings)
      return plain value : Eval Outcome) middle := by
  rw [eval, bind_run evaluated]
  rfl

theorem Binds.collects {bound : List (String × Value)}
    (binds : Binds context path {} value pattern before bound after) :
    (Record.ofEntries bound).keys = pattern.names.eraseDups ∧
      ∀ name, (Record.ofEntries bound).get? name = bound.reverse.lookup name := by
  constructor
  · rw [Record.keys_ofEntries, binds.names]
  · intro name
    rw [Record.ofEntries, Record.get?_setAll]
    exact Option.or_none

theorem lookup?_assignAll {scope : Scope} {world : World}
    (inside : scope.root.index < world.heap.objects.size) (bindings : Record) (name : String) :
    (assignAll scope bindings world).heap.lookup? scope name =
      (bindings.get? name).or (world.heap.lookup? scope name) :=
  Heap.lookup?_assignAll inside bindings.distinct name

/-- An assignment to a pattern is all or nothing. If the value cannot be taken apart, then the
assignment fails without writing to a variable: all that has happened are steps of the pattern,
and without defaults and computed keys these only take new places of the heap. Otherwise every
name is assigned once, with the value that it was bound to last. -/
theorem eval_destructure (context : Context) (use : Use) (path : Path) (loc : Span)
    (pattern : Pattern) (rhs : Expr) {before middle : World} {value : Value}
    (evaluated : valueOf (eval context .value (.value :: path) rhs) before = .ok value middle) :
    match bind context (.pattern :: path) {} value pattern middle with
    | .error failure after =>
      eval context use path (.destructure loc op pattern rhs) before = .error failure after ∧
        Walks context pattern.embedded middle after ∧
        (pattern.embedded = [] → middle.GrowsTo after)
    | .ok bindings reached =>
      eval context use path (.destructure loc op pattern rhs) before =
          .ok (plain value) (assignAll context.scope bindings reached) ∧
        Walks context pattern.embedded middle reached ∧
        ∃ bound, Binds context (.pattern :: path) {} value pattern middle bound reached ∧
          bindings.keys = pattern.names.eraseDups ∧
          (∀ name, bindings.get? name = bound.reverse.lookup name) ∧
          (context.scope.root.index < reached.heap.objects.size → ∀ name,
            (assignAll context.scope bindings reached).heap.lookup? context.scope name =
              (bound.reverse.lookup name).or (reached.heap.lookup? context.scope name)) := by
  have walks := bind_walks context (.pattern :: path) {} value pattern middle
  split
  · next failure after run =>
      rw [run] at walks
      refine ⟨?_, walks, ?_⟩
      · rw [eval_destructure_eq evaluated, bind_failed run]
      · intro noExpressions
        rw [noExpressions] at walks
        exact walks.growsTo
  · next bindings reached run =>
      rw [run] at walks
      rcases bind_eq_ok_iff.mp run with ⟨bound, binds, rfl⟩
      rcases binds.collects with ⟨keys, values⟩
      refine ⟨?_, walks, bound, binds, keys, values, ?_⟩
      · rw [eval_destructure_eq evaluated, bind_run run]
        rfl
      · intro inside name
        rw [lookup?_assignAll inside]
        exact congrArg (Option.or · _) (values name)

/-- The assignment `[a, a] = [true, false]`, after which `a` is `false`. -/
theorem eval_destructure_repeated :
    let name : Pattern := .ident { name := "a" }
    let pattern : Pattern := .array {} [some name, some name]
    let rhs : Expr := .array {} [some (.boolean {} true), some (.boolean {} false)]
    let (scope, heap) := Heap.newRoot {} {}
    let context := rootContext (fun _ => none) scope false 0
    ∃ after, eval context .value [] (.destructure {} .plain pattern rhs) { heap } =
        .ok (plain (.array ⟨0⟩)) after ∧
      after.heap.lookup? scope "a" = some (.boolean false) := by
  intro name pattern rhs
  rcases eval_destructure _ .value [] {} pattern rhs rfl with ⟨run, -, -⟩
  exact ⟨_, run, rfl⟩

end ExprScript.Eval
