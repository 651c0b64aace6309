import ExprScript.Proofs.Memo.Transparency
import ExprScript.Proofs.Outcome
import ExprScript.Proofs.Relocation.Call

/-! # Parentheses around a callee

The object of a member is the receiver when the member is called, and also when the member is
in one pair of parentheses. With more pairs around it the same function is called in the same
way, but it has no receiver any more. That makes a difference only for functions of the host
that look at their receiver.
-/

namespace ExprScript

/-! ## Calls and tags -/

/-- An expression in pairs of parentheses, the outermost first. -/
def Expr.parens (pairs : List Span) (inner : Expr) : Expr := pairs.foldr .paren inner

/-- How the value of an expression is called: with arguments, or as the tag of a template. -/
inductive CallForm where
  | arguments (args : List Expr) (optional : Bool)
  | template (loc : Span) (quasis : List Quasi) (holes : List Expr)

namespace CallForm

/-- The call of an expression. -/
def of (form : CallForm) (loc : Span) (callee : Expr) : Expr :=
  match form with
  | .arguments args optional => .call loc callee args optional
  | .template templateLoc quasis holes => .tagged loc callee templateLoc quasis holes

def edge : CallForm → Edge
  | .arguments _ _ => .callee
  | .template _ _ _ => .tag

def values (form : CallForm) (context : Context) (path : Path) : Eval (List Value) :=
  match form with
  | .arguments args _ => Eval.evalArguments context path 0 args
  | .template _ quasis holes => do
    let strings ← Eval.templateStrings quasis
    let values ← Eval.evalHoles context path 0 holes
    return strings :: values

theorem values_relocates (form : CallForm) {context : Context} (placeless : context.Placeless)
    (tree : Nat) (path path' : Path) :
    Relocates (form.values context path) (form.values (context.movedTo tree) path') := by
  cases form with
  | arguments args optional =>
      exact Eval.evalArguments_relocates context placeless tree path path' 0 args
  | template loc quasis holes =>
      apply Relocates.bind (.templateStrings quasis)
      intro strings
      exact .bind (Eval.evalHoles_relocates context placeless tree path path' 0 holes) fun _ =>
        .pure _

end CallForm

/-- The failures are the same, up to the expression that is quoted as the one that was called. -/
inductive Failure.SameButCallee (callee callee' : Expr) : Failure → Failure → Prop
  | same (failure : Failure) : SameButCallee callee callee' failure failure
  | notDefined (position : Position) :
      SameButCallee callee callee' (.raised { cause := .notDefined callee.print, position })
        (.raised { cause := .notDefined callee'.print, position })
  | notFunction (position : Position) :
      SameButCallee callee callee' (.raised { cause := .notFunction callee.print, position })
        (.raised { cause := .notFunction callee'.print, position })

/-- The second outcome is a function as well, the same one, and the first one has its receiver
or none. -/
inductive Outcome.LosesReceiver (keeps : Prop) : Outcome → Outcome → Prop
  | kept (holds : keeps) (this function : Value) :
      LosesReceiver keeps (some (this, function)) (some (this, function))
  | lost (holds : ¬ keeps) (this function : Value) :
      LosesReceiver keeps (some (.undefined, function)) (some (this, function))

/-! ## Two runs -/

section

variable {α β γ δ : Type} {failures : Failure → Failure → Prop} {post : α → β → Prop}
  {post' : γ → δ → Prop} {before before' : World}

/-- The second steps are compared in the worlds that the first ones have led to. -/
theorem Corresponds.bind {left : Eval α} {right : Eval β} {next : α → Eval γ}
    {next' : β → Eval δ} (start : Corresponds failures post (left before) (right before'))
    (rest : ∀ value value' middle middle', right before' = .ok value' middle' →
      post value value' → World.Congruent middle middle' →
        Corresponds failures post' (next value middle) (next' value' middle')) :
    Corresponds failures post' ((left >>= next) before) ((right >>= next') before') := by
  simp only [Bind.bind, EStateM.bind]
  generalize left before = result at start
  generalize run : right before' = result' at start
  cases start with
  | ok holds congruent => exact rest _ _ _ _ run holds congruent
  | error holds congruent => exact .error holds congruent

theorem Corresponds.exceptCallee (callee callee' : Expr)
    {result : EStateM.Result Failure World α} {result' : EStateM.Result Failure World β}
    (corresponds : Corresponds Eq post result result') :
    Corresponds (Failure.SameButCallee callee callee') post result result' := by
  cases corresponds with
  | ok holds congruent => exact .ok holds congruent
  | error holds congruent => exact .error (holds ▸ .same _) congruent

theorem SameResult.corresponds {tree : Nat} {result result' : EStateM.Result Failure World α}
    (same : SameResult tree result result') : Corresponds Eq Eq result result' := by
  cases same with
  | ok value alike =>
      exact .ok rfl ⟨congrArg _ alike.heap, congrArg _ alike.log, alike.nextTree⟩
  | error failure alike =>
      exact .error rfl ⟨congrArg _ alike.heap, congrArg _ alike.log, alike.nextTree⟩

theorem Corresponds.between {middle middle' last last' : EStateM.Result Failure World α}
    (corresponds : Corresponds failures Eq middle middle') (first : Corresponds Eq Eq last middle)
    (second : Corresponds Eq Eq last' middle') : Corresponds failures Eq last last' := by
  cases corresponds with
  | ok same congruent =>
      cases first with
      | ok same' congruent' =>
          cases second with
          | ok same'' congruent'' =>
              exact .ok (same'.trans (same.trans same''.symm))
                (congruent'.trans (congruent.trans congruent''.symm))
  | error holds congruent =>
      cases first with
      | error same congruent' =>
          cases second with
          | error same' congruent'' =>
              subst same same'
              exact .error holds (congruent'.trans (congruent.trans congruent''.symm))

theorem Corresponds.map {left right : Eval α} (corresponds :
    Corresponds failures Eq (left before) (right before')) (change : α → β) :
    Corresponds failures Eq ((do return change (← left) : Eval β) before)
      ((do return change (← right) : Eval β) before') :=
  corresponds.bind fun _ _ _ _ _ same congruent => .ok (congrArg change same) congruent

theorem Corresponds.remembered {context : Context} (unused : context.useMemo = false) {tree : Nat}
    {path path' : Path} {left right : Eval Value}
    (corresponds : Corresponds failures Eq (left before) (right before')) :
    Corresponds failures Eq (Eval.memoized context path left before)
      (Eval.memoized (context.movedTo tree) path' right before') := by
  rw [Eval.memoized_of_unused unused, @Eval.memoized_of_unused (context.movedTo tree) unused]
  apply corresponds.bind
  intro value value' middle middle' _ same congruent
  exact .ok same ⟨congruent.heap, congruent.log, congruent.nextTree⟩

end

namespace Eval

variable {context : Context} {path path' : Path} {tree : Nat}

/-! ## Callees -/

theorem valueOf_plain (action : Eval Value) : valueOf (do return plain (← action)) = action := by
  simp only [valueOf, bind_assoc, pure_bind, plain, Option.map_some, Option.getD_some, bind_pure]

theorem valueOf_parens (pairs : List Span) (inner : Expr) :
    valueOf (eval context .value path (inner.parens pairs)) =
      valueOf (eval context .value (pairs.foldl (fun place _ => .inner :: place) path) inner) := by
  induction pairs generalizing path with
  | nil => rfl
  | cons pair pairs induction =>
      have inside := eval_paren context .value path pair (inner.parens pairs) (by simp)
      change valueOf (eval context .value path (.paren pair (inner.parens pairs))) = _
      rw [inside, valueOf_plain, induction, List.foldl_cons]

theorem valueOf_member {member : Expr} (isMember : member.kind = .memberExpression) :
    valueOf (eval context .value path member) =
      memoized context path (valueOf (eval context .callee path member)) := by
  cases member with
  | member loc owner key optional => rw [eval, eval, valueOf_plain]
  | _ => cases isMember

theorem eval_paren_member {member : Expr} (isMember : member.kind = .memberExpression)
    (pair : Span) : eval context .callee path (.paren pair member) = (do
      let outcome ← eval context .callee (.inner :: path) member
      return outcome.or (plain .undefined)) := by
  cases member with
  | member loc owner key optional =>
      exact eval_paren_callee context path pair loc owner key optional
  | _ => cases isMember

/-- A member in parentheses, as a callee, is the same function as in one pair of them. -/
theorem eval_parens_callee (placeless : context.Placeless) {member : Expr}
    (isMember : member.kind = .memberExpression) (pair : Span) {pairs : List Span}
    (nonempty : pairs ≠ []) :
    Relates Eq (Outcome.LosesReceiver (pairs.length = 1))
      (eval context .callee path (member.parens pairs))
      (eval (context.movedTo tree) .callee path' (.paren pair member)) := by
  have moved := fun place => eval_relocates context placeless tree .callee place (.inner :: path')
    member
  rw [eval_paren_member isMember]
  rcases pairs with _ | ⟨first, _ | ⟨second, pairs⟩⟩
  · exact absurd rfl nonempty
  · change Relates _ _ (eval context .callee path (.paren first member)) _
    rw [eval_paren_member isMember]
    apply Relates.after (moved _)
    intro outcome
    apply Relates.pure
    cases outcome with
    | none => exact .kept rfl _ _
    | some result => exact .kept rfl _ _
  · have notMember : (member.parens (second :: pairs)).kind ≠ .memberExpression := nofun
    change Relates _ _
      (eval context .callee path (.paren first (member.parens (second :: pairs)))) _
    rw [eval_paren _ _ _ _ _ fun _ => notMember, valueOf_parens, valueOf_member isMember]
    -- The value of the member is the function without its receiver.
    have function : ∀ place, Relates Eq (fun value outcome => ∃ this,
        Option.or outcome (plain .undefined) = some (this, value))
        (memoized context place (valueOf (eval context .callee place member)))
        (eval (context.movedTo tree) .callee (.inner :: path') member) := by
      intro place
      apply Relates.rememberedLeft placeless.unused
      rw [← bind_pure (eval (context.movedTo tree) .callee (.inner :: path') member)]
      apply Relates.after (moved _)
      intro outcome
      apply Relates.pure
      cases outcome with
      | none => exact ⟨_, rfl⟩
      | some result => exact ⟨result.1, rfl⟩
    apply Relates.bind (function _)
    intro value outcome ⟨this, same⟩
    rw [same]
    exact Relates.pure (.lost (by simp) _ _)

/-! ## Calls -/

/-- If a function is called in the end, its receiver makes no difference to the call. -/
def IgnoresReceiver (context : Context) (path : Path) (form : CallForm) (callee : Expr)
    (world : World) : Prop :=
  ∀ this ref middle values final,
    eval context .callee (form.edge :: path) callee world =
        .ok (some (this, .function ref)) middle →
    form.values context path middle = .ok values final →
      context.call ref this values final = context.call ref .undefined values final

/-- A call that does not depend on the receiver, or that has the same one. -/
theorem callValue_corresponds (placeless : context.Placeless) (position : Position)
    (callee callee' : Expr) (function this this' : Value) (args : List Value)
    {before before' : World} (congruent : World.Congruent before before')
    (receiver : this = this' ∨ this = .undefined ∧ ∀ ref, function = .function ref →
      context.call ref this' args before' = context.call ref .undefined args before') :
    Corresponds (Failure.SameButCallee callee callee') Eq
      (callValue context position callee function this args before)
      (callValue (context.movedTo tree) position callee' function this' args before') := by
  cases function with
  | function ref =>
      have same : context.call ref this' args before' = context.call ref this args before' := by
        rcases receiver with rfl | ⟨rfl, ignored⟩
        · rfl
        · exact ignored ref rfl
      have called := Relocates.anchored position (placeless.call ref this args) before before'
        congruent
      have same' : anchored position (context.call ref this' args) before' =
          anchored position (context.call ref this args) before' := by
        simp only [anchored, EStateM.run, same]
      simp only [callValue]
      change Corresponds _ _ _ (anchored position (context.call ref this' args) before')
      rw [same']
      exact called.exceptCallee callee callee'
  | undefined => exact .error (.notDefined position) congruent
  | _ => exact .error (.notFunction position) congruent

/-- What follows the callee, up to the call itself. -/
theorem called_corresponds (placeless : context.Placeless) (form : CallForm) (loc : Span)
    {callee callee' : Expr} {this this' function : Value} {middle middle' : World}
    (congruent : World.Congruent middle middle')
    (receiver : this = this' ∨ this = .undefined ∧ ∀ ref values final, function = .function ref →
      form.values (context.movedTo tree) path' middle' = .ok values final →
        context.call ref this' values final = context.call ref .undefined values final) :
    Corresponds (Failure.SameButCallee callee callee') Eq
      ((do
        let args ← form.values context path
        callValue context loc.start callee function this args : Eval Value) middle)
      ((do
        let args ← form.values (context.movedTo tree) path'
        callValue (context.movedTo tree) loc.start callee' function this' args : Eval Value)
        middle') := by
  have values := form.values_relocates placeless tree path path' middle middle' congruent
  apply (values.exceptCallee callee callee').bind
  intro args args' last last' run same congruent'
  subst same
  apply callValue_corresponds placeless loc.start callee callee' function this this' args congruent'
  rcases receiver with same | ⟨none, ignored⟩
  · exact .inl same
  · exact .inr ⟨none, fun ref isFunction => ignored ref args last' isFunction run⟩

def callOutcome (context : Context) (path : Path) (loc : Span) (callee : Expr)
    (args : List Expr) (optional : Bool) : Outcome → Eval Outcome
  | none => return none
  | some (this, function) => do
    if optional && function.isNullish then return none
    else
      let args ← evalArguments context path 0 args
      return plain (← callValue context loc.start callee function this args)

/-- Two callees with the same function are called alike, if the first one keeps the receiver
or nobody looks at it. -/
theorem eval_form_corresponds (placeless : context.Placeless) (use : Use) (form : CallForm)
    (loc : Span) {callee callee' : Expr} {before before' : World} {keeps : Prop}
    (outcomes : Corresponds Eq (Outcome.LosesReceiver keeps)
      (eval context .callee (form.edge :: path) callee before)
      (eval (context.movedTo tree) .callee (form.edge :: path') callee' before'))
    (receiver : keeps ∨ IgnoresReceiver (context.movedTo tree) path' form callee' before') :
    Corresponds (Failure.SameButCallee callee callee') Eq
      (eval context use path (form.of loc callee) before)
      (eval (context.movedTo tree) use path' (form.of loc callee') before') := by
  have outcomes := outcomes.exceptCallee callee callee'
  have called : ∀ {outcome outcome' : Outcome} {middle middle' : World},
      eval (context.movedTo tree) .callee (form.edge :: path') callee' before' =
        .ok outcome' middle' →
      outcome.LosesReceiver keeps outcome' → World.Congruent middle middle' →
      ∃ this this' function, outcome = some (this, function) ∧ outcome' = some (this', function) ∧
        Corresponds (Failure.SameButCallee callee callee') Eq
          ((do
            let args ← form.values context path
            callValue context loc.start callee function this args : Eval Value) middle)
          ((do
            let args ← form.values (context.movedTo tree) path'
            callValue (context.movedTo tree) loc.start callee' function this' args : Eval Value)
            middle') := by
    intro outcome outcome' middle middle' run same congruent
    cases same with
    | kept holds this function =>
        exact ⟨this, this, function, rfl, rfl,
          called_corresponds placeless form loc congruent (.inl rfl)⟩
    | lost fails this function =>
        have ignores := receiver.resolve_left fails
        refine ⟨.undefined, this, function, rfl, rfl,
          called_corresponds placeless form loc congruent (.inr ⟨rfl, ?_⟩)⟩
        intro ref values final isFunction run'
        rw [isFunction] at run
        exact ignores this ref middle' values final run run'
  cases form with
  | arguments args optional =>
      have link : Corresponds (Failure.SameButCallee callee callee') Eq
          ((eval context .callee (.callee :: path) callee >>=
            callOutcome context path loc callee args optional) before)
          ((eval (context.movedTo tree) .callee (.callee :: path') callee' >>=
            callOutcome (context.movedTo tree) path' loc callee' args optional) before') := by
        apply outcomes.bind
        intro outcome outcome' middle middle' run same congruent
        rcases called run same congruent with ⟨this, this', function, rfl, rfl, called⟩
        dsimp only [callOutcome]
        split
        · exact .ok rfl congruent
        · have whole := called.map plain
          simp only [bind_assoc] at whole
          exact whole
      cases use with
      | value =>
          rw [CallForm.of, CallForm.of, eval, eval]
          exact ((link.map _).remembered placeless.unused).map plain
      | link | callee =>
          rw [CallForm.of, CallForm.of, eval, eval]
          · exact link
          · rintro ⟨⟩
          · rintro ⟨⟩
  | template templateLoc quasis holes =>
      rw [CallForm.of, CallForm.of, eval, eval]
      refine (Corresponds.remembered placeless.unused ?_).map plain
      apply outcomes.bind
      intro outcome outcome' middle middle' run same congruent
      rcases called run same congruent with ⟨this, this', function, rfl, rfl, called⟩
      simp only [CallForm.values, bind_assoc, pure_bind] at called
      exact called

/-- However many pairs of parentheses there are around a member, it is called as in one pair of
them: the function, its arguments, the result and the effects are the same. So is the receiver
if there is one pair only, and with more pairs the function must not look at it. -/
theorem eval_parens (placeless : context.Placeless) (use : Use) (path path' : Path)
    (form : CallForm) (loc : Span) {member : Expr} (isMember : member.kind = .memberExpression)
    (pair : Span) {pairs : List Span} (nonempty : pairs ≠ []) {before before' : World}
    (congruent : World.Congruent before before')
    (receiver : pairs.length = 1 ∨
      IgnoresReceiver (context.movedTo tree) path' form (.paren pair member) before') :
    Corresponds (Failure.SameButCallee (member.parens pairs) (.paren pair member)) Eq
      (eval context use path (form.of loc (member.parens pairs)) before)
      (eval (context.movedTo tree) use path' (form.of loc (.paren pair member)) before') :=
  eval_form_corresponds placeless use form loc
    (eval_parens_callee placeless isMember pair nonempty before before' congruent) receiver

/-! ## Whole evaluations -/

/-- Arrow functions have no receiver of their own. -/
theorem callFunction_ignores_receiver (host : Host) (depth : Nat) (ref : FunctionRef)
    (this : Value) (args : List Value) (world : World)
    (ignores : ∀ key function, (world.heap.function ref).body = .native key →
      host key = some function → ∀ call, function call this args = function call .undefined args) :
    callFunction host depth ref this args world =
      callFunction host depth ref .undefined args world := by
  cases depth with
  | zero => rfl
  | succ depth =>
      have looked : inspect (fun heap => heap.function ref) world =
          .ok (world.heap.function ref) world := rfl
      rw [Eval.callFunction, Eval.callFunction, bind_run looked, bind_run looked]
      cases body : (world.heap.function ref).body with
      | arrow closure => rfl
      | native key =>
          dsimp only
          cases found : host key with
          | none => rfl
          | some function => exact congrFun (ignores key function body found _) world

/-- An evaluation that uses remembered results, of which there are none at first. -/
theorem evaluate_fresh {host : Host} {tree : Nat} (alone : host.LeavesAlone tree) (expr : Expr)
    (scope : Scope) (useMemo : Bool) {world : World}
    (fresh : useMemo = true → ∀ path, world.memo.get? ⟨tree, path⟩ = none) :
    Corresponds Eq Eq (evaluate host tree expr scope useMemo world)
      (evaluate host tree expr scope false world) :=
  (sameResult_of_fresh alone expr scope useMemo fresh).corresponds

/-- The call of a member in any number of parentheses is evaluated like the one in a single
pair, whether remembered results are used or not: with the same result and with the same
effects. There is a difference only if there are more pairs and the function that is called
looks at its receiver. -/
theorem evaluate_parens (host : Host) (placeless : host.Placeless)
    (tree tree' : Nat) (alone : host.LeavesAlone tree) (alone' : host.LeavesAlone tree')
    (form : CallForm) (loc : Span) (member : Expr) (isMember : member.kind = .memberExpression)
    (pair : Span) (pairs : List Span) (nonempty : pairs ≠ []) (scope : Scope) (useMemo : Bool)
    (world : World)
    (fresh : useMemo = true → ∀ path,
      world.memo.get? ⟨tree, path⟩ = none ∧ world.memo.get? ⟨tree', path⟩ = none)
    (receiver : pairs.length = 1 ∨
      IgnoresReceiver (rootContext host scope false tree') [] form (.paren pair member) world) :
    Corresponds (Failure.SameButCallee (member.parens pairs) (.paren pair member)) Eq
      (evaluate host tree (form.of loc (member.parens pairs)) scope useMemo world)
      (evaluate host tree' (form.of loc (.paren pair member)) scope useMemo world) := by
  have outcomes := eval_parens (placeless.rootContext scope tree) .value [] [] form loc isMember
    pair nonempty (.refl world) receiver
  have values := outcomes.map fun outcome => (outcome.map (·.2)).getD .undefined
  have left := evaluate_fresh alone (form.of loc (member.parens pairs)) scope useMemo
    fun used path => (fresh used path).1
  have right := evaluate_fresh alone' (form.of loc (.paren pair member)) scope useMemo
    fun used path => (fresh used path).2
  exact values.between left right

def ownerOf (body : FunctionBody) : Scope × World :=
  let owner : Record := .ofEntries [("f", .function ⟨0⟩)]
  let function := { name := "", body, constructible := false }
  ({ inner := ⟨1⟩ },
    { heap :=
        { objects := #[owner, .ofEntries [("o", .object ⟨0⟩)]], functions := #[function] } })

def ownedMember : Expr := .member {} (.ident { name := "o" }) (.name { name := "f" }) false

/-- The call `((o.f))(null)` of the function `x => x`. -/
theorem evaluate_parens_arrow :
    let closure : Closure :=
      { tree := 7, path := [], params := [.ident { name := "x" }],
        body := .ident { name := "x" }, scope := { inner := ⟨1⟩ } }
    let (scope, world) := ownerOf (.arrow closure)
    let form : CallForm := .arguments [.null {}] false
    Corresponds (Failure.SameButCallee (ownedMember.parens [{}, {}]) (.paren {} ownedMember)) Eq
      (evaluate Library.host 0 (form.of {} (ownedMember.parens [{}, {}])) scope true world)
      (evaluate Library.host 1 (form.of {} (.paren {} ownedMember)) scope true world) := by
  intro closure
  apply evaluate_parens Library.host Library.host_placeless
  · exact Library.host_leavesAlone 0
  · exact Library.host_leavesAlone 1
  · rfl
  · exact nofun
  · exact fun _ _ => ⟨rfl, rfl⟩
  · right
    intro this ref middle values final run run'
    cases run
    cases run'
    exact callFunction_ignores_receiver _ _ _ _ _ _ nofun

/-- The calls `((o.f))()` and `(o.f)()` of a function that gives its receiver back; so do the
templates with these tags. -/
theorem not_evaluate_parens_receiver :
    let (scope, world) := ownerOf (.native "self")
    ∀ form ∈ [CallForm.arguments [] false, .template {} [] []],
      (∃ after, evaluate Library.host 0 (form.of {} (ownedMember.parens [{}, {}])) scope false
        world = .ok .undefined after) ∧
      ∃ after, evaluate Library.host 0 (form.of {} (.paren {} ownedMember)) scope false world =
        .ok (.object ⟨0⟩) after := by
  intro form member
  rcases List.mem_pair.mp member with rfl | rfl
  · exact ⟨⟨_, rfl⟩, _, rfl⟩
  · exact ⟨⟨_, rfl⟩, _, rfl⟩

end Eval

end ExprScript
