import ExprScript.Proofs.Memo.Evaluation
import ExprScript.Proofs.Outcome

/-! # Chains that end early

An optional link that meets nothing ends its chain: the links after it are not
evaluated, whatever they are, and the chain as a whole has no effects but those
of the expression before the link.
-/

namespace ExprScript

/-! ## Chains -/

/-- A link of a chain. -/
inductive Link where
  | member (loc : Span) (key : MemberKey) (optional : Bool)
  | call (loc : Span) (arguments : List Expr) (optional : Bool)

namespace Link

def isOptional : Link → Bool
  | .member _ _ optional => optional
  | .call _ _ optional => optional

def attach : Link → Expr → Expr
  | .member loc key optional, owner => .member loc owner key optional
  | .call loc arguments optional, callee => .call loc callee arguments optional

def edge : Link → Edge
  | .member .. => .object
  | .call .. => .callee

/-- What the expression before the link is evaluated for. -/
def use : Link → Use
  | .member .. => .link
  | .call .. => .callee

end Link

/-- An expression with links after it, the nearest one first. -/
def Expr.chain (start : Expr) (links : List Link) : Expr :=
  links.foldl (fun expr link => link.attach expr) start

/-- The place of the expression that a chain starts with. -/
def Path.chainStart (path : Path) (links : List Link) : Path := links.map Link.edge ++ path

/-- The outcome of a chain that ended early. As a value it is `undefined`; a
longer chain ends with it. -/
def Use.ended : Use → Outcome
  | .value => Eval.plain .undefined
  | .link | .callee => none

def Outcome.isNothing (outcome : Outcome) : Bool := outcome.all fun result => result.2.isNullish

/-! ## Worlds up to what a tree remembers -/

namespace World.Alike

variable {tree : Nat} {first second third : World}

theorem symm (alike : Alike tree first second) : Alike tree second first :=
  ⟨alike.heap.symm, alike.log.symm, alike.nextTree.symm,
    fun node other => (alike.memo node other).symm⟩

theorem trans (alike : Alike tree first second) (alike' : Alike tree second third) :
    Alike tree first third :=
  ⟨alike.heap.trans alike'.heap, alike.log.trans alike'.log,
    alike.nextTree.trans alike'.nextTree,
    fun node other => (alike.memo node other).trans (alike'.memo node other)⟩

theorem remember (world : World) (tree : Nat) (path : Path) (value : Value) :
    Alike tree world { world with memo := world.memo.set ⟨tree, path⟩ value } := by
  refine ⟨rfl, rfl, rfl, ?_⟩
  intro node other
  have different : node ≠ ⟨tree, path⟩ := fun same => other (congrArg NodeId.tree same)
  exact (Memo.get?_cons_of_ne different value world.memo).symm

end World.Alike

namespace Eval

variable {context : Context} {path : Path} {world : World}

/-- The result of the node is not taken from what is remembered. -/
def Unremembered (context : Context) (world : World) : Prop :=
  context.useMemo = true → ∀ path, world.memo.get? ⟨context.tree, path⟩ = none

theorem memoized_eq (unremembered : Unremembered context world) (path : Path)
    (action : Eval Value) : memoized context path action world = (do
      let value ← action
      modify fun world => { world with memo := world.memo.set ⟨context.tree, path⟩ value }
      return value : Eval Value) world := by
  have unseen : (if context.useMemo then world.memo.get? ⟨context.tree, path⟩ else none) = none := by
    split
    · next used => exact unremembered used path
    · rfl
  simp only [memoized, Bind.bind, EStateM.bind, get, getThe, MonadStateOf.get, EStateM.get, unseen]

theorem memoized_achieves (unremembered : Unremembered context world) {action : Eval Value}
    {post : Value → World → Prop} (achieves : Achieves action world fun value after =>
      post value { after with memo := after.memo.set ⟨context.tree, path⟩ value }) :
    Achieves (memoized context path action) world post := by
  rw [Achieves, memoized_eq unremembered]
  apply Achieves.bind
  apply achieves.mono
  intro value after holds
  exact .modify (.pure holds)

theorem memoized_ensures (unremembered : Unremembered context world) (path : Path)
    (action : Eval Value) : Ensures (memoized context path action) world fun value after =>
      ∃ final, action world = .ok value final ∧ World.Alike context.tree after final := by
  rw [Ensures, memoized_eq unremembered]
  apply Ensures.bind
  intro value final run
  exact .modify (.pure ⟨final, run, (World.Alike.remember final _ path value).symm⟩)

theorem valueOf_ensures (action : Eval Outcome) (world : World) :
    Ensures (valueOf action) world fun value after =>
      ∃ outcome, action world = .ok outcome after ∧
        (value.isNullish = true → Outcome.isNothing outcome = true) := by
  apply Ensures.bind
  intro outcome after run
  refine .pure ⟨outcome, run, ?_⟩
  intro nullish
  cases outcome with
  | none => rfl
  | some result => exact nullish

/-- The outcome before a link ends the chain: it has ended already, or the link is
optional and has met nothing. -/
def EndsChain (optional : Bool) (outcome : Outcome) : Prop :=
  outcome = none ∨ optional = true ∧ Outcome.isNothing outcome = true

variable {after : World}

/-- What a link would do with a value is not done. -/
theorem link_achieves {before : Eval Outcome} {optional : Bool}
    (goOn : Value → Value → Eval Outcome)
    (achieves : Achieves before world fun outcome final =>
      EndsChain optional outcome ∧ World.Alike context.tree after final) :
    Achieves (do
      match ← before with
      | none => return none
      | some (this, value) =>
        if optional && value.isNullish then return none else goOn this value) world
      fun outcome final => outcome = none ∧ World.Alike context.tree after final := by
  apply Achieves.bind
  apply achieves.mono
  intro outcome final holds
  rcases holds with ⟨ends, alike⟩
  rcases outcome with _ | ⟨this, value⟩
  · exact .pure ⟨rfl, alike⟩
  · rcases ends with wrong | ⟨isOptional, nullish⟩
    · cases wrong
    · apply Achieves.iteTrue
      · exact Bool.and_eq_true_iff.mpr ⟨isOptional, nullish⟩
      · exact .pure ⟨rfl, alike⟩

/-- A chain that is evaluated as a value is remembered as `undefined`. -/
theorem remembered_achieves (unremembered : Unremembered context world) {link : Eval Outcome}
    (achieves : Achieves link world fun outcome final =>
      outcome = none ∧ World.Alike context.tree after final) :
    Achieves (do return plain (← memoized context path (valueOf link))) world
      fun outcome final => outcome = plain .undefined ∧ World.Alike context.tree after final := by
  apply Achieves.bind
  apply memoized_achieves unremembered
  apply Achieves.bind
  apply achieves.mono
  intro outcome final holds
  rcases holds with ⟨rfl, alike⟩
  exact .pure (.pure ⟨rfl, alike.trans (.remember _ _ _ _)⟩)

/-- A link that ends the chain adds nothing to the effects of what stands before. -/
theorem eval_attach_achieves {link : Link} {inner : Expr} (use : Use)
    (unremembered : Unremembered context world)
    (achieves : Achieves (eval context link.use (link.edge :: path) inner) world
      fun outcome final =>
        EndsChain link.isOptional outcome ∧ World.Alike context.tree after final) :
    Achieves (eval context use path (link.attach inner)) world fun outcome final =>
      outcome = use.ended ∧ World.Alike context.tree after final := by
  cases link with
  | member loc key optional =>
      have ended := link_achieves (fun _ object => do
        let name ← evalMemberKey context (.key :: path) key
        return some (object, ← readProperty loc.start object name)) achieves
      cases use with
      | value =>
          rw [Link.attach, eval]
          exact remembered_achieves unremembered ended
      | link =>
          rw [Link.attach, eval]
          apply Achieves.bind
          apply ended.mono
          intro outcome final holds
          rcases holds with ⟨rfl, alike⟩
          exact .pure ⟨rfl, alike⟩
      | callee =>
          rw [Link.attach, eval]
          exact ended
  | call loc arguments optional =>
      have ended := link_achieves (fun this function => do
        let args ← evalArguments context path 0 arguments
        return plain (← callValue context loc.start inner function this args)) achieves
      cases use with
      | value =>
          rw [Link.attach, eval]
          exact remembered_achieves unremembered ended
      | link =>
          rw [Link.attach, eval]
          · exact ended
          · exact nofun
      | callee =>
          rw [Link.attach, eval]
          · exact ended
          · exact nofun

theorem eval_eq_of_use {expr : Expr} (notChain : ∀ link inner, expr ≠ Link.attach link inner)
    (notParen : ∀ loc inner, expr ≠ .paren loc inner) (use : Use) :
    eval context use path expr = eval context .value path expr := by
  cases expr with
  | paren loc inner => exact absurd rfl (notParen loc inner)
  | member loc owner key optional => exact absurd rfl (notChain (.member loc key optional) owner)
  | call loc callee arguments optional =>
      exact absurd rfl (notChain (.call loc arguments optional) callee)
  | _ => simp only [eval]

theorem eval_attach_value (link : Link) (inner : Expr) :
    eval context .value path (link.attach inner) = (do
      return plain (← memoized context path
        (valueOf (eval context .callee path (link.attach inner))))) := by
  cases link with
  | member loc key optional => rw [Link.attach, eval, eval]
  | call loc arguments optional =>
      rw [Link.attach, eval, eval]
      exact nofun

/-- So is the object of a link. -/
theorem eval_attach_link (link : Link) (inner : Expr)
    (achieves : Achieves (eval context .callee path (link.attach inner)) world
      fun outcome final =>
        Outcome.isNothing outcome = true ∧ World.Alike context.tree after final) :
    Achieves (eval context .link path (link.attach inner)) world fun outcome final =>
      Outcome.isNothing outcome = true ∧ World.Alike context.tree after final := by
  cases link with
  | member loc key optional =>
      rw [Link.attach, eval] at achieves
      rw [Link.attach, eval]
      apply Achieves.bind
      apply achieves.mono
      intro outcome final holds
      apply Achieves.pure
      cases outcome with
      | none => exact holds
      | some result => exact holds
  | call loc arguments optional =>
      have same : eval context .link path (Link.attach (.call loc arguments optional) inner) =
          eval context .callee path (Link.attach (.call loc arguments optional) inner) := by
        rw [Link.attach, eval, eval]
        · exact nofun
        · exact nofun
      rwa [same]

theorem eval_attach_nothing (unremembered : Unremembered context world) {value : Value}
    (nullish : value.isNullish = true) (link : Link) (inner : Expr)
    (run : valueOf (eval context .value path (link.attach inner)) world = .ok value after) :
    Achieves (eval context .callee path (link.attach inner)) world fun outcome final =>
      Outcome.isNothing outcome = true ∧ World.Alike context.tree after final := by
  rw [eval_attach_value] at run
  have ensures : Ensures (valueOf do
      return plain (← memoized context path
        (valueOf (eval context .callee path (link.attach inner))))) world fun value after =>
      value.isNullish = true →
        Achieves (eval context .callee path (link.attach inner)) world fun outcome final =>
          Outcome.isNothing outcome = true ∧ World.Alike context.tree after final := by
    apply Ensures.bind
    apply Ensures.bind
    refine (memoized_ensures unremembered path _).mono fun value after found => ?_
    rcases found with ⟨final, run, alike⟩
    rcases valueOf_ensures _ _ _ _ run with ⟨outcome, run, nothing⟩
    exact .pure (.pure fun nullish => ⟨outcome, final, run, nothing nullish, alike⟩)
  exact ensures _ _ run nullish

/-- A member in parentheses keeps its receiver as a callee. -/
theorem eval_paren_nothing (unremembered : Unremembered context world) {value : Value}
    (nullish : value.isNullish = true) {loc : Span} {inner : Expr}
    (isMember : inner.kind = .memberExpression)
    (run : valueOf (eval context .value path (.paren loc inner)) world = .ok value after) :
    Achieves (eval context .callee path (.paren loc inner)) world fun outcome final =>
      Outcome.isNothing outcome = true ∧ World.Alike context.tree after final := by
  cases inner with
  | member memberLoc owner key optional =>
      have inside : Ensures (valueOf (eval context .value path
          (.paren loc (.member memberLoc owner key optional)))) world fun value after =>
          valueOf (eval context .value (.inner :: path) (.member memberLoc owner key optional))
            world = .ok value after := by
        rw [eval_paren context .value path loc _ nofun]
        apply Ensures.bind
        apply Ensures.bind
        intro value after run
        exact .pure (.pure run)
      have callee := eval_attach_nothing unremembered nullish (.member memberLoc key optional)
        owner (inside _ _ run)
      rw [eval_paren_callee]
      apply Achieves.bind
      apply callee.mono
      intro outcome final holds
      apply Achieves.pure
      cases outcome with
      | none => exact holds
      | some result => exact holds
  | _ => cases isMember

/-- An expression whose value stands for nothing has such an outcome for every
use, with the same effects. -/
theorem eval_nothing (unremembered : Unremembered context world) {value : Value}
    (nullish : value.isNullish = true) (use : Use) (start : Expr)
    (run : valueOf (eval context .value path start) world = .ok value after) :
    Achieves (eval context use path start) world fun outcome final =>
      Outcome.isNothing outcome = true ∧ World.Alike context.tree after final := by
  rcases valueOf_ensures _ _ _ _ run with ⟨outcome, run', nothing⟩
  have asValue : eval context use path start = eval context .value path start →
      Achieves (eval context use path start) world fun outcome final =>
        Outcome.isNothing outcome = true ∧ World.Alike context.tree after final := by
    intro same
    rw [same]
    exact ⟨outcome, after, run', nothing nullish, .refl _ _⟩
  by_cases isChain : ∃ link inner, start = Link.attach link inner
  · rcases isChain with ⟨link, inner, rfl⟩
    have callee := eval_attach_nothing unremembered nullish link inner run
    cases use with
    | value => exact asValue rfl
    | link => exact eval_attach_link link inner callee
    | callee => exact callee
  · simp only [not_exists] at isChain
    by_cases isParen : ∃ loc inner, start = .paren loc inner
    · rcases isParen with ⟨loc, inner, rfl⟩
      by_cases isMember : use = .callee ∧ inner.kind = .memberExpression
      · rcases isMember with ⟨rfl, isMember⟩
        exact eval_paren_nothing unremembered nullish isMember run
      · apply asValue
        rw [eval_paren, eval_paren]
        · exact nofun
        · exact not_and.mp isMember
    · simp only [not_exists] at isParen
      exact asValue (eval_eq_of_use isChain isParen use)

/-- An optional link after an expression that stands for nothing ends the chain,
however long it goes on: no key, argument or callee behind the link is evaluated.
A chain that is used as a value is `undefined`, and one that is the object of a
longer chain or a callee ends that chain, too. -/
theorem eval_chain_of_nullish (context : Context) (use : Use) (path : Path) (start : Expr)
    (first : Link) (links : List Link) (isOptional : first.isOptional = true)
    (world after : World) (unremembered : Unremembered context world) (value : Value)
    (run : valueOf (eval context .value (path.chainStart (first :: links)) start) world =
      .ok value after)
    (nullish : value.isNullish = true) :
    Achieves (eval context use path (start.chain (first :: links))) world fun outcome final =>
      outcome = use.ended ∧ World.Alike context.tree after final := by
  -- The induction is on the links from the last one on, since that is the outermost.
  induction links using List.reverseRecOn generalizing use path with
  | nil =>
      apply eval_attach_achieves use unremembered
      apply (eval_nothing unremembered nullish first.use start run).mono
      intro outcome final holds
      exact ⟨.inr ⟨isOptional, holds.1⟩, holds.2⟩
  | append_singleton links last induction =>
      have whole : start.chain (first :: (links ++ [last])) =
          last.attach (start.chain (first :: links)) := by
        simp [Expr.chain]
      have place : path.chainStart (first :: (links ++ [last])) =
          Path.chainStart (last.edge :: path) (first :: links) := by
        simp [Path.chainStart]
      rw [whole]
      rw [place] at run
      apply eval_attach_achieves use unremembered
      apply (induction last.use (last.edge :: path) run).mono
      intro outcome final holds
      refine ⟨.inl ?_, holds.2⟩
      cases last <;> exact holds.1

/-- The chain `(n = null)?.a[missing](missing)`: the variable is written, and that
nothing is called `missing` is not noticed. -/
theorem eval_chain_of_nullish_assigned :
    let start : Expr := .paren {} (.assign {} .plain (.ident { name := "n" }) (.null {}))
    let missing : Expr := .ident { name := "missing" }
    let first : Link := .member {} (.name { name := "a" }) true
    let links : List Link :=
      [.member {} (.computed missing) false, .call {} [missing] false]
    let (scope, heap) := Heap.newRoot {} {}
    let context := rootContext (fun _ => none) scope false 0
    let after : World := { heap := heap.assign scope "n" .null }
    Achieves (eval context .value [] (start.chain (first :: links))) { heap }
      fun outcome final => outcome = plain .undefined ∧ World.Alike 0 after final := by
  intro start missing first links
  exact eval_chain_of_nullish _ .value [] start first links rfl _ _ nofun .null rfl rfl

end Eval

end ExprScript
