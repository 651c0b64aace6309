import ExprScript.Eval.Library
import ExprScript.Proofs.Discipline.Evaluation

/-! # Code that writes nothing

An expression without assignments, updates and calls leaves everything on the heap as it was,
whether it has a value or fails. It takes new places, and its nodes remember their results. An
arrow function may do more, but only when it is called.
-/

namespace ExprScript

/-- What was on the heap is there still, and as it was. Besides new places of the heap there are
only results remembered by nodes of the tree; if these are used, none is forgotten. -/
structure World.Fills (tree : Nat) (used : Bool) (before after : World) : Prop where
  heap : before.heap.Extends after.heap
  log : after.log = before.log
  nextTree : after.nextTree = before.nextTree
  memo : ∃ filled, after.memo = filled ++ before.memo ∧ ∀ entry ∈ filled, entry.1.tree = tree
  kept : used = true → ∀ node value, before.memo.get? node = some value →
    after.memo.get? node = some value

namespace World.Fills

variable {tree : Nat} {used : Bool} {before middle after : World}

theorem of_heap {heap : Heap} (grows : before.heap.Extends heap) :
    before.Fills tree used { before with heap } :=
  ⟨grows, rfl, rfl, ⟨[], rfl, nofun⟩, fun _ _ _ => id⟩

theorem refl (world : World) : world.Fills tree used world := of_heap (.refl world.heap)

theorem trans (first : before.Fills tree used middle) (second : middle.Fills tree used after) :
    before.Fills tree used after where
  heap := first.heap.trans second.heap
  log := second.log.trans first.log
  nextTree := second.nextTree.trans first.nextTree
  memo := by
    rcases first.memo with ⟨filled, equal, own⟩
    rcases second.memo with ⟨filled', equal', own'⟩
    refine ⟨filled' ++ filled, ?_, List.forall_mem_append.mpr ⟨own', own⟩⟩
    rw [equal', equal, List.append_assoc]
  kept := fun isUsed node value found =>
    second.kept isUsed node value (first.kept isUsed node value found)

theorem remember {node : NodeId} (own : node.tree = tree)
    (new : used = true → before.memo.get? node = none) (fills : before.Fills tree used middle)
    (value : Value) :
    before.Fills tree used { middle with memo := middle.memo.set node value } where
  heap := fills.heap
  log := fills.log
  nextTree := fills.nextTree
  memo := by
    rcases fills.memo with ⟨filled, equal, own'⟩
    refine ⟨(node, value) :: filled, ?_, List.forall_mem_cons.mpr ⟨own, own'⟩⟩
    rw [Memo.set, equal, List.cons_append]
  kept := by
    intro isUsed other value' found
    have different : other ≠ node := by
      rintro rfl
      rw [new isUsed] at found
      cases found
    exact (Memo.get?_cons_of_ne different value middle.memo).trans
      (fills.kept isUsed other value' found)

end World.Fills

def Discipline.quiet (tree : Nat) (used : Bool) : Discipline where
  permission := { write := False, call := False }
  Shows _ := True
  Admits _ := True
  Owns := (· = tree)
  Recalls := (· = used)
  Holds _ := True
  Leads := World.Fills tree used
  refl _ := .refl _
  trans := .trans
  holds _ := trivial
  shows_plain _ _ := trivial
  shows_stored _ _ _ := trivial
  shows_variable _ _ _ := trivial
  shows_recalled _ _ _ := trivial
  admits_push _ _ := trivial
  newArray _ _ _ := ⟨.of_heap (.newArray _ _), trivial⟩
  newObject _ _ := ⟨.of_heap (.newObject _ _), trivial⟩
  newFunction _ _ := .of_heap (.newFunction _ _)
  newRegExp _ _ := .of_heap (.newRegExp _ _)
  setProperty mayWrite := mayWrite.elim
  assign _ mayWrite := mayWrite.elim
  remember recalls own new fills _ :=
    fills.remember own (fun isUsed => new (recalls.trans isUsed)) _

namespace Eval

/-- An expression that assigns, updates and calls nothing outside of arrow functions leaves the
arrays, objects and frames that there are as they were, and the functions and regular expressions
too, whether it has a value or fails. -/
theorem evaluate_quiet (host : Host) (tree : Nat) (expr : Expr)
    (allowed : expr.Allowed { write := False, call := False }) (scope : Scope) (useMemo : Bool)
    (world : World) :
    world.Fills tree useMemo (worldAfter (evaluate host tree expr scope useMemo world)) := by
  have ready : (rootContext host scope useMemo tree).Abides (.quiet tree useMemo) :=
    ⟨trivial, rfl, rfl, False.elim⟩
  exact (eval_obeys _ ready .value [] expr allowed).valueOf.leads trivial

/-- The array `[...list, list = null => (list[0] = list)]` takes `list` apart and has a function
that would write to it. -/
theorem evaluate_quiet_spread :
    let list : Ident := { name := "list" }
    let element : Expr := .member {} (.ident list) (.computed (.string { value := "0" })) false
    let function : Expr := .arrow {} [.withDefault {} (.ident list) (.null {})]
      (.paren {} (.assign {} .plain element (.ident list)))
    let expr : Expr := .array {} [some (.spread {} (.ident list)), some function]
    let world : World :=
      { heap :=
          { arrays := #[.ofList [.array ⟨0⟩]], objects := #[.ofEntries [("list", .array ⟨0⟩)]] } }
    expr.Allowed { write := False, call := False } ∧
      (∃ after, evaluate Library.host 0 expr { inner := ⟨0⟩ } true world = .ok (.array ⟨1⟩) after) ∧
      world.Fills 0 true
        (worldAfter (evaluate Library.host 0 expr { inner := ⟨0⟩ } true world)) := by
  intro list element function expr world
  have allowed : expr.Allowed { write := False, call := False } := ⟨trivial, trivial, trivial⟩
  exact ⟨allowed, ⟨_, rfl⟩, evaluate_quiet Library.host 0 expr allowed _ true world⟩

end Eval

end ExprScript
