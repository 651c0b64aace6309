import ExprScript.Proofs.Outcome
import ExprScript.Proofs.Receiver

/-! # Compound assignment

A compound assignment to a variable, or to a named member of a variable, does what the plain
assignment does that it is short for. The longer form finds its target twice and reads it
through the expression instead of the reference; nothing is written in between, so it finds the
same place and the same value. Only the places that errors are blamed on can be others.
-/

namespace ExprScript

/-! ## Targets -/

/-- Both expressions are the same variable, or the same named member of the same variable,
wherever they are written. -/
inductive Expr.SameTarget : Expr → Expr → Prop
  | name {id id' : Ident} (same : id.name = id'.name) : SameTarget (.ident id) (.ident id')
  | member (loc loc' : Span) {owner owner' key key' : Ident} (sameOwner : owner.name = owner'.name)
      (sameKey : key.name = key'.name) :
      SameTarget (.member loc (.ident owner) (.name key) false)
        (.member loc' (.ident owner') (.name key') false)

inductive Reference.SameButPlace : Reference → Reference → Prop
  | name {id id' : Ident} (same : id.name = id'.name) : SameButPlace (.name id) (.name id')
  | property (object : Value) (key : String) (position position' : Position) :
      SameButPlace (.property object key position) (.property object key position')

/-- The operator that adds or takes away what an update does. -/
def UpdateOp.arithmetic : UpdateOp → ArithmeticOp
  | .increment => .add
  | .decrement => .sub

def Heap.known? (heap : Heap) (scope : Scope) (name : String) : Option Value :=
  (heap.lookup? scope name).or (if name == "undefined" then some .undefined else none)

/-- The value of a variable is read off the heap. -/
theorem Eval.readName_run (context : Context) (id : Ident) (world : World) :
    readName context id world =
      match world.heap.known? context.scope id.name with
      | some value => .ok value world
      | none =>
        .error (.raised { cause := .notDefined id.name, position := id.loc.start }) world := by
  change (match world.heap.lookup? context.scope id.name with
    | some value => return value
    | none =>
      if id.name == "undefined" then return .undefined
      else raise (.notDefined id.name) id.loc.start : Eval Value) world = _
  unfold Heap.known?
  cases world.heap.lookup? context.scope id.name with
  | some value => rfl
  | none =>
      by_cases isUndefined : id.name == "undefined"
      · simp only [isUndefined]
        rfl
      · simp only [isUndefined]
        rfl

theorem Heap.Congruent.known? {left right : Heap} (congruent : left.Congruent right)
    (scope : Scope) (name : String) : left.known? scope name = right.known? scope name :=
  congruent.same (·.known? scope name) fun _ => rfl

inductive Expr.RefersTo (heap : Heap) (scope : Scope) : Expr → Reference → Prop
  | name (id : Ident) : RefersTo heap scope (.ident id) (.name id)
  | member (loc : Span) {owner : Ident} (key : Ident) {object : Value}
      (found : heap.known? scope owner.name = some object) :
      RefersTo heap scope (.member loc (.ident owner) (.name key) false)
        (.property object key.name loc.start)

theorem Expr.RefersTo.moved {left right : Heap} {scope : Scope} {target target' : Expr}
    {reference : Reference} (refers : target.RefersTo left scope reference)
    (same : target.SameTarget target') (congruent : left.Congruent right) :
    ∃ reference', target'.RefersTo right scope reference' ∧ reference.SameButPlace reference' := by
  cases same with
  | name same =>
      cases refers with
      | name => exact ⟨_, .name _, .name same⟩
  | member loc loc' sameOwner sameKey =>
      cases refers with
      | member _ _ found =>
          rw [congruent.known?, sameOwner] at found
          exact ⟨_, .member loc' _ found, sameKey ▸ .property _ _ _ _⟩

/-! ## Failures up to the blame -/

inductive Failure.SameButPlace : Failure → Failure → Prop
  | raised {error error' : Error} (cause : error.cause = error'.cause) :
      SameButPlace (.raised error) (.raised error')
  | exhausted : SameButPlace .exhausted .exhausted

theorem Failure.SameButPlace.refl (failure : Failure) : failure.SameButPlace failure := by
  cases failure with
  | raised error => exact .raised rfl
  | exhausted => exact .exhausted

/-- The two computations have the same value and the same effects, or they fail for the same
reason. -/
abbrev Coincides {α : Type} (left right : Eval α) : Prop :=
  Relates Failure.SameButPlace Eq left right

namespace Coincides

variable {α : Type} {left right : Eval α}

theorem of_relocates (relocates : Relocates left right) : Coincides left right := by
  intro before before' congruent
  have outcome := relocates before before' congruent
  generalize left before = result at outcome
  generalize right before' = result' at outcome
  cases outcome with
  | ok same congruent' => exact .ok same congruent'
  | error same congruent' => exact .error (same ▸ .refl _) congruent'

theorem blamed {blamed : Eval α} (relocates : Relocates left right)
    (elsewhere : ∀ world,
      Corresponds Failure.SameButPlace Eq (right world) (blamed world)) :
    Coincides left blamed := by
  intro before before' congruent
  have first := relocates before before' congruent
  have second := elsewhere before'
  generalize left before = result at first
  generalize right before' = result' at first second
  generalize blamed before' = result'' at second
  cases first with
  | ok same congruent' =>
      cases second with
      | ok same' congruent'' => exact .ok (same.trans same') (congruent'.trans congruent'')
  | error same congruent' =>
      cases second with
      | error same' congruent'' => exact .error (same ▸ same') (congruent'.trans congruent'')

theorem anchored (action : Eval α) (position position' : Position) (world : World) :
    Corresponds Failure.SameButPlace Eq (Eval.anchored position action world)
      (Eval.anchored position' action world) := by
  have cause : ∀ (error : Error) place, (error.anchoredAt place).cause = error.cause := by
    intro error place
    rw [Error.anchoredAt]
    split <;> rfl
  simp only [Eval.anchored, EStateM.run]
  cases action world with
  | ok value after => exact .ok rfl (.refl after)
  | error failure after =>
      cases failure with
      | raised error => exact .error (.raised ((cause _ _).trans (cause _ _).symm)) (.refl after)
      | exhausted => exact .error .exhausted (.refl after)

theorem readProperty (position position' : Position) (object : Value) (key : String) :
    Coincides (Eval.readProperty position object key)
      (Eval.readProperty position' object key) :=
  blamed (.readProperty position object key) fun world =>
    anchored (Eval.ofExcept (world.heap.getProperty object key)) position position' world

theorem writeProperty (position position' : Position) (object : Value) (key : String)
    (value : Value) :
    Coincides (Eval.writeProperty position object key value)
      (Eval.writeProperty position' object key value) := by
  apply blamed (.writeProperty position object key value)
  intro world
  have written := anchored (Eval.ofExcept (world.heap.setProperty object key value)) position
    position' world
  apply written.bind
  intro heap heap' after after' _ same congruent
  subst same
  exact .ok rfl ⟨rfl, congruent.log, congruent.nextTree⟩

theorem applyBinary (position position' : Position) (op : BinaryOp) (left right : Value) :
    Coincides (Eval.applyBinary position op left right)
      (Eval.applyBinary position' op left right) :=
  blamed (.applyBinary position op left right) fun world =>
    anchored (Eval.ofExcept (world.heap.binary op left right)) position position' world

variable {context : Context} {tree : Nat}

theorem readName {id id' : Ident} (same : id.name = id'.name) :
    Coincides (Eval.readName context id) (Eval.readName (context.movedTo tree) id') := by
  apply blamed (.readName context id tree)
  intro world
  rw [Eval.readName_run, Eval.readName_run, same]
  cases world.heap.known? (context.movedTo tree).scope id'.name with
  | some value => exact .ok rfl (.refl world)
  | none => exact .error (.raised rfl) (.refl world)

variable (context : Context) (tree : Nat)

theorem readReference {reference reference' : Reference}
    (same : reference.SameButPlace reference') :
    Coincides (Eval.readReference context reference)
      (Eval.readReference (context.movedTo tree) reference') := by
  cases same with
  | name same => exact readName same
  | property object key position position' =>
      exact readProperty position position' object key

theorem writeReference {reference reference' : Reference}
    (same : reference.SameButPlace reference') (value : Value) :
    Coincides (Eval.writeReference context reference value)
      (Eval.writeReference (context.movedTo tree) reference' value) := by
  cases same with
  | name same =>
      simp only [Eval.writeReference, same]
      exact of_relocates (Relocates.modifyHeap fun _ => rfl)
  | property object key position position' =>
      exact writeProperty position position' object key value

end Coincides

section

variable {α β : Type} {failures : Failure → Failure → Prop} {post : α → β → Prop}

theorem Relates.notedRight {left : Eval α} {right : Eval β} (memo : World → Memo)
    (relates : Relates failures post left right) :
    Relates failures post left (do
      modify fun world => { world with memo := memo world }
      right) :=
  fun before before' congruent => relates before { before' with memo := memo before' }
    ⟨congruent.heap, congruent.log, congruent.nextTree⟩

/-- Whether the second result is remembered does not show. -/
theorem Corresponds.rememberedRight {context : Context} (unused : context.useMemo = false)
    {tree : Nat} {path : Path} {result : EStateM.Result Failure World Value}
    {right : Eval Value} {before' : World}
    (corresponds : Corresponds failures Eq result (right before')) :
    Corresponds failures Eq result
      (Eval.memoized (context.movedTo tree) path right before') := by
  have unused' : (context.movedTo tree).useMemo = false := unused
  rw [Eval.memoized_of_unused unused']
  simp only [Bind.bind, EStateM.bind]
  generalize right before' = result' at corresponds
  cases corresponds with
  | ok same congruent => exact .ok same ⟨congruent.heap, congruent.log, congruent.nextTree⟩
  | error holds congruent => exact .error holds congruent

end

/-! ## Reading a target -/

namespace Eval

open Relocates

variable {context : Context} {path : Path} {tree : Nat} {target target' : Expr}
  {reference : Reference} {before before' : World}

theorem evalReference_member (path : Path) (loc : Span) (owner key : Ident) :
    evalReference context path (.member loc (.ident owner) (.name key) false) = (do
      let object ← readName context owner
      return .property object key.name loc.start) := by
  rw [evalReference, eval, valueOf_plain, evalMemberKey]
  rfl

theorem evalReference_run (context : Context) (path : Path)
    (refers : target.RefersTo before.heap context.scope reference) :
    evalReference context path target before = .ok reference before := by
  cases refers with
  | name id => rw [evalReference]; rfl
  | @member loc owner key object found =>
      have known : readName context owner before = .ok object before := by
        rw [readName_run, found]
      rw [evalReference_member, bind_run known]
      rfl

theorem valueOf_named_member (path : Path) (loc : Span) (owner key : Ident) :
    valueOf (eval context .value path (.member loc (.ident owner) (.name key) false)) =
      memoized context path (do readProperty loc.start (← readName context owner) key.name) := by
  rw [valueOf_member rfl, eval, eval]
  simp only [valueOf, evalMemberKey, bind_assoc, pure_bind, plain, Bool.false_and,
    Option.map_some, Option.getD_some, bind_pure, Bool.false_eq_true, ↓reduceIte]

/-- The value of a target is read from the place that it refers to. -/
theorem valueOf_target (tree : Nat) (path : Path) (unused : context.useMemo = false)
    (same : target.SameTarget target')
    (refers : target.RefersTo before.heap context.scope reference)
    (congruent : World.Congruent before before') :
    Corresponds Failure.SameButPlace Eq (readReference context reference before)
      (valueOf (eval (context.movedTo tree) .value path target') before') := by
  rcases refers.moved same congruent.heap with ⟨reference', refers', sameReference⟩
  have read := Coincides.readReference context tree sameReference before before' congruent
  cases refers' with
  | name id => rwa [eval, valueOf_plain]
  | @member loc owner key object found =>
      rw [valueOf_named_member]
      apply Corresponds.rememberedRight unused
      have known : readName (context.movedTo tree) owner before' = .ok object before' := by
        rw [readName_run, Context.movedTo_scope, found]
      rwa [bind_run known]

/-- A target that refers to nothing has no value either. -/
theorem target_fails (tree : Nat) (unused : context.useMemo = false)
    (same : target.SameTarget target')
    (none : ∀ reference, ¬ target.RefersTo before.heap context.scope reference)
    (congruent : World.Congruent before before') :
    ∃ failure failure' : Failure, failure.SameButPlace failure' ∧
      (∀ path, evalReference context path target before = .error failure before) ∧
      (∀ path, evalReference (context.movedTo tree) path target' before' =
        .error failure' before') ∧
      ∀ path, valueOf (eval (context.movedTo tree) .value path target') before' =
        .error failure' before' := by
  cases same with
  | name same => exact absurd (.name _) (none _)
  | @member loc loc' owner owner' key key' sameOwner sameKey =>
      have unknown : before.heap.known? context.scope owner.name = Option.none := by
        cases found : before.heap.known? context.scope owner.name with
        | none => rfl
        | some object => exact absurd (.member loc key found) (none _)
      have unknown' : before'.heap.known? context.scope owner'.name = Option.none := by
        rw [← congruent.heap.known?, ← sameOwner, unknown]
      have fails := readName_run context owner before
      have fails' := readName_run (context.movedTo tree) owner' before'
      rw [unknown] at fails
      rw [Context.movedTo_scope, unknown'] at fails'
      refine ⟨.raised { cause := .notDefined owner.name, position := owner.loc.start },
        .raised { cause := .notDefined owner'.name, position := owner'.loc.start },
        .raised (congrArg Cause.notDefined sameOwner), ?_, ?_, ?_⟩
      · intro path
        rw [evalReference_member, bind_failed fails]
      · intro path
        rw [evalReference_member, bind_failed fails']
      · intro path
        have unused' : (context.movedTo tree).useMemo = false := unused
        rw [valueOf_named_member, memoized_of_unused unused', bind_failed (bind_failed fails' _)]

theorem readReference_run (context : Context) (reference : Reference) (world : World) :
    (∃ value, readReference context reference world = .ok value world) ∨
      ∃ failure, readReference context reference world = .error failure world := by
  cases reference with
  | name id =>
      rw [readReference, readName_run]
      cases world.heap.known? context.scope id.name with
      | some value => exact .inl ⟨value, rfl⟩
      | none => exact .inr ⟨_, rfl⟩
  | property object key position =>
      change (∃ value, anchored position (ofExcept (world.heap.getProperty object key)) world =
        .ok value world) ∨ ∃ failure,
          anchored position (ofExcept (world.heap.getProperty object key)) world =
            .error failure world
      cases world.heap.getProperty object key with
      | ok value => exact .inl ⟨value, rfl⟩
      | error error => exact .inr ⟨_, rfl⟩

section

variable {α β : Type} {next : Reference → Value → Eval α} {path' place : Path}
  (unused : context.useMemo = false) (same : target.SameTarget target')

include unused same

/-- What follows the value of a target is compared in worlds where it refers to the same place
still. -/
theorem readTarget_corresponds (tree : Nat) (path : Path) (next next' : Value → Eval α)
    (refers : target.RefersTo before.heap context.scope reference)
    (congruent : World.Congruent before before')
    (rest : ∀ value middle', World.Congruent before middle' →
      Corresponds Failure.SameButPlace Eq (next value before) (next' value middle')) :
    Corresponds Failure.SameButPlace Eq ((readReference context reference >>= next) before)
      ((valueOf (eval (context.movedTo tree) .value path target') >>= next') before') := by
  have read := valueOf_target tree path unused same refers congruent
  rcases readReference_run context reference before with ⟨value, run⟩ | ⟨failure, run⟩
  · rw [run] at read
    generalize run' : valueOf _ before' = result at read
    cases read with
    | ok same congruent' =>
        rw [bind_run run, bind_run run', ← same]
        exact rest value _ congruent'
  · rw [run] at read
    generalize run' : valueOf _ before' = result at read
    cases read with
    | error alike congruent' =>
        rw [bind_failed run, bind_failed run']
        exact .error alike congruent'

/-- The longer form takes the value of the target first. -/
theorem value_before_target {next' : Value → Eval α}
    (rest : ∀ reference value middle middle',
      target.RefersTo middle.heap context.scope reference → World.Congruent middle middle' →
        Corresponds Failure.SameButPlace Eq (next reference value middle)
          (next' value middle')) :
    Coincides
      (do
        let reference ← evalReference context path target
        let value ← readReference context reference
        next reference value)
      (valueOf (eval (context.movedTo tree) .value path' target') >>= next') := by
  intro before before' congruent
  by_cases refers : ∃ reference, target.RefersTo before.heap context.scope reference
  · rcases refers with ⟨reference, refers⟩
    have found := evalReference_run context path refers
    have read := readTarget_corresponds unused same tree path' (next reference) next' refers
      congruent fun value middle' congruent' =>
        rest reference value before middle' refers congruent'
    rwa [bind_run found]
  · rcases target_fails tree unused same (not_exists.mp refers) congruent with
      ⟨failure, failure', alike, fails, _, fails'⟩
    rw [bind_failed (fails _), bind_failed (fails' _)]
    exact .error alike congruent

/-- The longer form finds the target first and takes its value then. -/
theorem target_before_value {target'' : Expr} (same' : target.SameTarget target'')
    {next' : Reference → Value → Eval α}
    (rest : ∀ reference reference' value, reference.SameButPlace reference' →
      Coincides (next reference value) (next' reference' value)) :
    Coincides
      (do
        let reference ← evalReference context path target
        let value ← readReference context reference
        next reference value)
      (do
        let reference ← evalReference (context.movedTo tree) path' target'
        let value ← valueOf (eval (context.movedTo tree) .value place target'')
        next' reference value) := by
  intro before before' congruent
  by_cases refers : ∃ reference, target.RefersTo before.heap context.scope reference
  · rcases refers with ⟨reference, refers⟩
    rcases refers.moved same congruent.heap with ⟨reference', refers', sameReference⟩
    have found := evalReference_run context path refers
    have found' := evalReference_run (context.movedTo tree) path' refers'
    have read := readTarget_corresponds unused same' tree place (next reference)
      (next' reference') refers congruent fun value middle' congruent' =>
        rest reference reference' value sameReference before middle' congruent'
    rwa [bind_run found, bind_run found']
  · rcases target_fails tree unused same (not_exists.mp refers) congruent with
      ⟨failure, failure', alike, fails, fails', _⟩
    rw [bind_failed (fails _), bind_failed (fails' _)]
    exact .error alike congruent

end

/-! ## The longer forms -/

theorem valueOf_binary (path : Path) (loc : Span) (op : BinaryOp) (left right : Expr) :
    valueOf (eval context .value path (.binary loc op left right)) =
      memoized context path (do
        let left ← valueOf (eval context .value (.left :: path) left)
        let right ← valueOf (eval context .value (.right :: path) right)
        applyBinary loc.start op left right) := by
  rw [eval, valueOf_plain]

theorem inspect_plus (value : Value) :
    inspect (fun heap => heap.unary .plus value) = (do
      return .number (← inspect fun heap => heap.toNumber value)) := rfl

theorem applyBinary_update (position : Position) (op : UpdateOp) (number : Float) :
    applyBinary position (.arithmetic op.arithmetic) (.number number) (.number 1.0) =
      (return .number (op.apply number) : Eval Value) := by
  cases op <;> rfl

theorem valueOf_number (path : Path) (literal : NumberLiteral) :
    valueOf (eval context .value path (.number literal)) =
      (return .number literal.value : Eval Value) := by
  rw [eval]
  rfl

theorem valueOf_plus (path : Path) (loc : Span) (argument : Expr) :
    valueOf (eval context .value path (.unary loc .plus argument)) =
      memoized context path (do
        let value ← valueOf (eval context .value (.inner :: path) argument)
        inspect fun heap => heap.unary .plus value) := by
  rw [eval, valueOf_plain]
  rfl

section

variable (placeless : context.Placeless) (use use' : Use) (path' : Path)
  (same : target.SameTarget target')

include placeless same

/-- The assignment `t op= b` of an arithmetic operator, and `t = t op b`. -/
theorem eval_arithmetic_assign (loc loc' operation : Span) (op : ArithmeticOp) {target'' : Expr}
    (same' : target.SameTarget target'') (value : Expr) :
    Coincides (eval context use path (.assign loc (.arithmetic op) target value))
      (eval (context.movedTo tree) use' path'
        (.assign loc' .plain target' (.binary operation (.arithmetic op) target'' value))) := by
  have unused : (context.movedTo tree).useMemo = false := placeless.unused
  have right := fun place place' => Coincides.of_relocates
    (eval_relocates context placeless tree .value place place' value).valueOf
  rw [eval, eval]
  simp only [valueOf_binary, memoized_of_unused unused, bind_assoc, pure_bind]
  apply target_before_value placeless.unused same same'
  intro reference reference' current sameReference
  apply Relates.after (right _ _)
  intro value
  apply Relates.after (Coincides.applyBinary _ _ _ _ _)
  intro result
  apply Relates.notedRight
  have written := Coincides.writeReference context tree sameReference result
  exact Relates.after written fun _ => .pure rfl

/-- The assignment `t op= b` of a logical operator, and `t op (t = b)`. -/
theorem eval_logical_assign (loc loc' pair assignment : Span) (op : LogicalOp) {target'' : Expr}
    (same' : target.SameTarget target'') (value : Expr) :
    Coincides (eval context use path (.assign loc (.logical op) target value))
      (eval (context.movedTo tree) use' path'
        (.logical loc' op target' (.paren pair (.assign assignment .plain target'' value)))) := by
  have unused : (context.movedTo tree).useMemo = false := placeless.unused
  have right := fun place place' => Coincides.of_relocates
    (eval_relocates context placeless tree .value place place' value).valueOf
  have assigned : ∀ place,
      valueOf (eval (context.movedTo tree) .value place
        (.paren pair (.assign assignment .plain target'' value))) = (do
      let reference ← evalReference (context.movedTo tree) (.target :: .inner :: place) target''
      let value ← valueOf (eval (context.movedTo tree) .value (.value :: .inner :: place) value)
      writeReference (context.movedTo tree) reference value
      return value) := by
    intro place
    rw [eval_paren _ _ _ _ _ (by simp), valueOf_plain, eval]
    simp only [valueOf, bind_assoc, pure_bind, plain, Option.map_some, Option.getD_some]
  rw [eval, assigned, eval]
  simp only [memoized_of_unused unused, bind_assoc, pure_bind]
  apply value_before_target placeless.unused same
  intro reference current middle middle' refers congruent
  by_cases decided : op.isDecidedBy current
  · simp only [decided, ↓reduceIte, pure_bind]
    exact Relates.notedRight _ (.pure rfl) middle middle' congruent
  · rcases refers.moved same' congruent.heap with ⟨reference', refers', sameReference⟩
    have found := evalReference_run (context.movedTo tree)
      (.target :: .inner :: .right :: path') refers'
    simp only [decided, Bool.false_eq_true, ↓reduceIte, bind_assoc, pure_bind]
    rw [bind_run found]
    have written := Relates.after (right (.value :: path) (.value :: .inner :: .right :: path'))
      fun value => Relates.after (Coincides.writeReference context tree sameReference value)
        fun _ => Relates.notedRight
          (fun world => world.memo.set { tree, path := path' } value)
          (Relates.pure (rfl : plain value = plain value))
    exact written middle middle' congruent

/-- The update `++t` or `--t`, and `t = +t + 1` or `t = +t - 1`. -/
theorem eval_update (loc loc' operation sign one : Span) (op : UpdateOp) (raw : String)
    {target'' : Expr} (same' : target.SameTarget target'') :
    Coincides (eval context use path (.update loc op .before target))
      (eval (context.movedTo tree) use' path'
        (.assign loc' .plain target'
          (.binary operation (.arithmetic op.arithmetic) (.unary sign .plus target'')
            (.number { loc := one, value := 1.0, raw })))) := by
  have unused : (context.movedTo tree).useMemo = false := placeless.unused
  rw [eval, eval]
  simp only [valueOf_binary, valueOf_plus, valueOf_number, memoized_of_unused unused, bind_assoc,
    pure_bind]
  apply target_before_value placeless.unused same same'
  intro reference reference' old sameReference
  simp only [inspect_plus, applyBinary_update, bind_assoc, pure_bind, if_true]
  apply Relates.after (Coincides.of_relocates (.inspect fun heap => heap.toNumber_placeless old))
  intro before
  apply Relates.notedRight
  apply Relates.notedRight
  exact Relates.after (Coincides.writeReference context tree sameReference _) fun _ => .pure rfl

end

/-- Without remembered results, a compound assignment has the same value and the same effects as
its longer form, or both fail for the same reason. The longer form of `t op= b` is `t = t op b`
for the arithmetic operators and `t op (t = b)` for the logical ones; the longer forms of `++t`
and `--t` are `t = +t + 1` and `t = +t - 1`. -/
theorem evaluate_compound {host : Host} (placeless : host.Placeless) (tree tree' : Nat)
    (scope : Scope) {target target' target'' : Expr} (same : target.SameTarget target')
    (same' : target.SameTarget target'') (value : Expr) (loc loc' inner innermost one : Span)
    (raw : String) :
    (∀ op : ArithmeticOp, Coincides
      (evaluate host tree (.assign loc (.arithmetic op) target value) scope false)
      (evaluate host tree'
        (.assign loc' .plain target' (.binary inner (.arithmetic op) target'' value)) scope
        false)) ∧
    (∀ op : LogicalOp, Coincides
      (evaluate host tree (.assign loc (.logical op) target value) scope false)
      (evaluate host tree'
        (.logical loc' op target' (.paren inner (.assign innermost .plain target'' value))) scope
        false)) ∧
    ∀ op : UpdateOp, Coincides
      (evaluate host tree (.update loc op .before target) scope false)
      (evaluate host tree'
        (.assign loc' .plain target'
          (.binary inner (.arithmetic op.arithmetic) (.unary innermost .plus target'')
            (.number { loc := one, value := 1.0, raw }))) scope false) := by
  have ready := placeless.rootContext scope tree
  have value_of : ∀ {left right : Eval Outcome}, Coincides left right →
      Coincides (valueOf left) (valueOf right) :=
    fun coincides => Relates.after coincides fun _ => .pure rfl
  refine ⟨fun op => ?_, fun op => ?_, fun op => ?_⟩
  · exact value_of (eval_arithmetic_assign ready _ _ _ same loc loc' inner op same' value)
  · exact value_of (eval_logical_assign ready _ _ _ same loc loc' inner innermost op same' value)
  · exact value_of (eval_update ready _ _ _ same loc loc' inner innermost one op raw same')

/-- The assignment `o.n += o.n = "c"`: the value of `o.n` is read before it is overwritten, in
the longer form as well. -/
theorem evaluate_compound_overwritten :
    let target : Expr := .member {} (.ident { name := "o" }) (.name { name := "n" }) false
    let value : Expr := .assign {} .plain target (.string { value := "c" })
    let scope : Scope := { inner := ⟨1⟩ }
    let owner : Record := .ofEntries [("n", .string "a")]
    let world : World := { heap := { objects := #[owner, .ofEntries [("o", .object ⟨0⟩)]] } }
    Library.host.Placeless ∧ target.SameTarget target ∧
      Coincides (evaluate Library.host 0 (.assign {} (.arithmetic .add) target value) scope false)
        (evaluate Library.host 1
          (.assign {} .plain target (.binary {} (.arithmetic .add) target value)) scope false) ∧
      ∃ after, evaluate Library.host 0 (.assign {} (.arithmetic .add) target value) scope false
        world = .ok (.string "ac") after := by
  intro target value scope owner world
  have same : target.SameTarget target := .member {} {} rfl rfl
  have coincides := evaluate_compound Library.host_placeless 0 1 scope same same value {} {} {} {}
    {} "1"
  exact ⟨Library.host_placeless, same, coincides.1 .add, _, rfl⟩

end Eval

end ExprScript
