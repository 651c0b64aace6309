import ExprScript.Proofs.Memo.Simulation

/-! # Remembered results do not show

Evaluation that uses remembered results is followed by evaluation that does
not, step by step. The argument for the case that nothing is remembered at
first: every node outside of arrow functions is evaluated at most once, and
what an arrow function remembers is filed under paths through its body or its
parameters, which the evaluation of the tree itself never asks for.
-/

namespace ExprScript

open ExprScript.Path World

def Context.withoutMemo (context : Context) : Context := { context with useMemo := false }

@[simp] theorem Context.withoutMemo_scope (context : Context) :
    context.withoutMemo.scope = context.scope := rfl

/-- What a context has to satisfy at a node: calls leave the tree alone, and
remembered results are used outside of arrow functions of the tree only. -/
structure Context.Ready (tree : Nat) (context : Context) (path : Path) : Prop where
  call : ∀ ref this args, Neutral tree (context.call ref this args)
  outer : context.useMemo = true → context.tree = tree ∧ path.Outer

namespace Context.Ready

variable {tree : Nat} {context : Context} {path : Path}

theorem cons (ready : context.Ready tree path) {edge : Edge}
    (outside : edge ≠ .body ∧ ∀ index, edge ≠ .param index) :
    context.Ready tree (edge :: path) :=
  ⟨ready.call, fun uses => ⟨(ready.outer uses).1, outer_cons.mpr ⟨outside, (ready.outer uses).2⟩⟩⟩

theorem withScope (ready : context.Ready tree path) (scope : Scope) :
    Context.Ready tree { context with scope } path :=
  ⟨ready.call, ready.outer⟩

end Context.Ready

/-! ## Items of a node -/

def itemsFrom (index : Nat) (edge : Edge) : Prop := ∃ place, index ≤ place ∧ edge = .item place

def pastKey (path : Path) (index : Nat) (other : Path) : Prop :=
  Below (.value :: .item index :: path) other ∨ Under path (itemsFrom (index + 1)) other

theorem below_item {path other : Path} {index : Nat} (below : Below (.item index :: path) other) :
    Under path (itemsFrom index) other :=
  ⟨_, ⟨index, Nat.le_refl index, rfl⟩, below⟩

theorem later_items {path other : Path} {index : Nat}
    (later : Under path (itemsFrom (index + 1)) other) : Under path (itemsFrom index) other := by
  obtain ⟨edge, ⟨place, bound, equal⟩, suffix⟩ := later
  exact ⟨edge, ⟨place, by omega, equal⟩, suffix⟩

theorem below_item_apart {path other : Path} {index : Nat}
    (below : Below (.item index :: path) other) : ¬ Under path (itemsFrom (index + 1)) other := by
  refine (below_cons_iff.mp below).apart ?_
  rintro edge rfl ⟨place, later, equal⟩
  cases equal
  omega

/-! ## Rules for the parts of a node -/

namespace Simulates

variable {tree : Nat} {fresh : Bool} {α β : Type} {path : Path}

theorem edge {edge : Edge} {left right : Eval α}
    (simulates : Simulates tree (Below (edge :: path)) fresh left right) :
    Simulates tree (Under path (· = edge)) fresh left right :=
  simulates.mono fun _ => below_cons_iff.mp

theorem below {edges : Edge → Prop} {left right : Eval α}
    (simulates : Simulates tree (Under path edges) fresh left right) :
    Simulates tree (Below path) fresh left right :=
  simulates.mono fun _ => Under.below

theorem parent {edge : Edge} {left right : Eval α}
    (simulates : Simulates tree (Below (edge :: path)) fresh left right) :
    Simulates tree (Below path) fresh left right :=
  simulates.edge.below

theorem under {edges wider : Edge → Prop} {left right : Eval α}
    (simulates : Simulates tree (Under path edges) fresh left right)
    (within : ∀ edge, edges edge → wider edge) :
    Simulates tree (Under path wider) fresh left right :=
  simulates.mono fun _ ⟨edge, holds, suffix⟩ => ⟨edge, within edge holds, suffix⟩

/-- One item is evaluated, and then the ones after it. -/
theorem bindItem {index : Nat} {left right : Eval α} {next next' : α → Eval β}
    (start : Simulates tree (Below (.item index :: path)) fresh left right)
    (rest : ∀ value,
      Simulates tree (Under path (itemsFrom (index + 1))) fresh (next value) (next' value)) :
    Simulates tree (Under path (itemsFrom index)) fresh (left >>= next) (right >>= next') := by
  refine bind _ _ start rest (fun _ => below_item_apart) ?_
  rintro other (item | later)
  · exact below_item item
  · exact later_items later

theorem skipItem {index : Nat} {left right : Eval α}
    (rest : Simulates tree (Under path (itemsFrom (index + 1))) fresh left right) :
    Simulates tree (Under path (itemsFrom index)) fresh left right :=
  rest.mono fun _ => later_items

/-- The key of a property is evaluated, and then its value and the properties
after it. -/
theorem bindKey {index : Nat} {left right : Eval α} {next next' : α → Eval β}
    (start : Simulates tree (Below (.key :: .item index :: path)) fresh left right)
    (rest : ∀ value, Simulates tree (pastKey path index) fresh (next value) (next' value)) :
    Simulates tree (Under path (itemsFrom index)) fresh (left >>= next) (right >>= next') := by
  refine bind _ _ start rest ?_ ?_
  · rintro other key (value | later)
    · rw [below_cons_iff] at key value
      exact key.apart (by simp) value
    · exact below_item_apart ((List.suffix_cons _ _).trans key) later
  · rintro other (key | value | later)
    · exact below_item ((List.suffix_cons _ _).trans key)
    · exact below_item ((List.suffix_cons _ _).trans value)
    · exact later_items later

/-- The value of a property is evaluated, and then the properties after it. -/
theorem bindField {index : Nat} {left right : Eval α} {next next' : α → Eval β}
    (start : Simulates tree (Below (.value :: .item index :: path)) fresh left right)
    (rest : ∀ value,
      Simulates tree (Under path (itemsFrom (index + 1))) fresh (next value) (next' value)) :
    Simulates tree (pastKey path index) fresh (left >>= next) (right >>= next') := by
  refine bind _ _ start rest ?_ fun _ => id
  intro other value later
  exact below_item_apart ((List.suffix_cons _ _).trans value) later

theorem valueOf {region : Path → Prop} {left right : Eval Outcome}
    (simulates : Simulates tree region fresh left right) :
    Simulates tree region fresh (Eval.valueOf left) (Eval.valueOf right) :=
  simulates.andThen fun _ => Neutral.pure _

/-- Names that a pattern has bound so far become visible. -/
theorem inPattern {region : Path → Prop} {context : Context} (bindings : Record)
    {next next' : Context → Eval β}
    (rest : ∀ scope, Simulates tree region fresh (next { context with scope })
      (next' { context.withoutMemo with scope })) :
    Simulates tree region fresh (Eval.patternContext context bindings >>= next)
      (Eval.patternContext context.withoutMemo bindings >>= next') := by
  simp only [Eval.patternContext, bind_assoc, pure_bind]
  exact after (Neutral.allocate _) rest

/-- A node whose parts follow each other follows itself: if it uses remembered
results, there is none of it yet. -/
theorem remember {context : Context} (ready : context.Ready tree path)
    (edges : Edge → Prop) {left right : Eval Value}
    (action : Simulates tree (Under path edges) context.useMemo left right) :
    Simulates tree (Below path) context.useMemo (Eval.memoized context path left)
      (Eval.memoized context.withoutMemo path right) := by
  intro before before' alike isFresh
  have nothing : (if context.useMemo then before.memo.get? ⟨context.tree, path⟩ else none) =
      none := by
    cases uses : context.useMemo with
    | false => rfl
    | true =>
        obtain ⟨here, outer⟩ := ready.outer uses
        rw [here]
        exact isFresh uses path outer (List.suffix_refl path)
  obtain ⟨same, keeps⟩ := action before before' alike fun uses other outer under =>
    isFresh uses other outer under.below
  have unfoldLeft : Eval.memoized context path left before =
      (left >>= fun value => do
        modify fun world : World =>
          { world with memo := world.memo.set ⟨context.tree, path⟩ value }
        pure value : Eval Value) before := by
    simp only [Eval.memoized, Bind.bind, EStateM.bind, MonadState.get, getThe,
      MonadStateOf.get, EStateM.get, nothing]
  have unfoldRight : Eval.memoized context.withoutMemo path right before' =
      (right >>= fun value => do
        modify fun world : World =>
          { world with memo := world.memo.set ⟨context.tree, path⟩ value }
        pure value : Eval Value) before' := rfl
  rw [unfoldLeft, unfoldRight]
  simp only [Bind.bind, EStateM.bind]
  generalize left before = leftResult at same keeps
  generalize right before' = rightResult at same
  cases same with
  | error failure alike' => exact ⟨.error failure alike', keeps.mono fun _ => Under.below⟩
  | ok value alike' =>
      refine ⟨.ok value ⟨alike'.heap, alike'.log, alike'.nextTree, ?_⟩, ?_⟩
      · intro node different
        simp only [Memo.get?, Memo.set, List.lookup]
        split
        · rfl
        · exact alike'.memo node different
      · intro other outer outside
        have different : (⟨tree, other⟩ : NodeId) ≠ ⟨context.tree, path⟩ := by
          intro equal
          cases equal
          exact outside (List.suffix_refl _)
        exact (Memo.get?_cons_of_ne different _ _).trans
          (keeps other outer fun under => outside under.below)

end Simulates

namespace Neutral

variable {tree : Nat} {context : Context} {path : Path}

theorem readName (context : Context) (id : Ident) : Neutral tree (Eval.readName context id) := by
  refine bind (inspect _) fun found => ?_
  split
  · exact pure _
  · split
    · exact pure _
    · exact raise _ _

theorem readReference (context : Context) (reference : Reference) :
    Neutral tree (Eval.readReference context reference) := by
  cases reference with
  | name id => exact readName context id
  | property object key position => exact readProperty position object key

theorem writeReference (context : Context) (reference : Reference) (value : Value) :
    Neutral tree (Eval.writeReference context reference value) := by
  unfold Eval.writeReference
  split
  · exact modifyHeap _
  · exact writeProperty _ _ _ _

theorem callValue (ready : context.Ready tree path) (position : Position) (callee : Expr)
    (function this : Value) (args : List Value) :
    Neutral tree (Eval.callValue context position callee function this args) := by
  unfold Eval.callValue
  split
  · exact anchored position (ready.call _ _ _)
  · exact raise _ _
  · exact raise _ _

theorem constructValue (ready : context.Ready tree path) (position : Position) (callee : Expr)
    (function : Value) (args : List Value) :
    Neutral tree (Eval.constructValue context position callee function args) := by
  unfold Eval.constructValue
  split
  · refine bind (inspect _) fun _ => ?_
    split
    · refine bind (newObject _) fun _ => bind (anchored position (ready.call _ _ _)) fun _ => ?_
      exact pure _
    · exact raise _ _
  · exact raise _ _
  · exact raise _ _

theorem createFunction (context : Context) (path : Path) (params : List Pattern) (body : Expr) :
    Neutral tree (Eval.createFunction context path params body) :=
  bind (allocate _) fun _ => pure _

end Neutral

namespace Eval

open Simulates

theorem eval_paren_callee (context : Context) (path : Path) (loc memberLoc : Span) (owner : Expr)
    (key : MemberKey) (optional : Bool) :
    eval context .callee path (.paren loc (.member memberLoc owner key optional)) = (do
      let outcome ← eval context .callee (.inner :: path) (.member memberLoc owner key optional)
      return outcome.or (plain .undefined)) := by
  rw [eval]

theorem eval_paren (context : Context) (use : Use) (path : Path) (loc : Span) (inner : Expr)
    (notMember : use = .callee → inner.kind ≠ .memberExpression) :
    eval context use path (.paren loc inner) = (do
      return plain (← valueOf (eval context .value (.inner :: path) inner))) := by
  rw [eval]
  rintro memberLoc owner key optional rfl rfl
  exact notMember rfl rfl

theorem evalArguments_cons (context : Context) (path : Path) (index : Nat) (argument : Expr)
    (args : List Expr) (notSpread : ∀ loc inner, argument ≠ .spread loc inner) :
    evalArguments context path index (argument :: args) = (do
      let value ← valueOf (eval context .value (.item index :: path) argument)
      return value :: (← evalArguments context path (index + 1) args)) := by
  rw [evalArguments]
  exact notSpread

theorem evalElements_some (context : Context) (path : Path) (index : Nat) (element : Expr)
    (elements : List (Option Expr)) (notSpread : ∀ loc inner, element ≠ .spread loc inner) :
    evalElements context path index (some element :: elements) = (do
      let value ← valueOf (eval context .value (.item index :: path) element)
      return value :: (← evalElements context path (index + 1) elements)) := by
  rw [evalElements]
  exact notSpread

theorem bindElements_some (context : Context) (path : Path) (index : Nat) (bindings : Record)
    (items : List Value) (element : Pattern) (elements : List (Option Pattern))
    (notRest : ∀ loc argument, element ≠ .rest loc argument) :
    bindElements context path index bindings items (some element :: elements) = (do
      let item := items.head?.getD .undefined
      let bindings ← bind context (.item index :: path) bindings item element
      bindElements context path (index + 1) bindings items.tail elements) := by
  rw [bindElements]
  exact notRest

variable {tree : Nat}

/-- What follows the object of a member. -/
private theorem memberLink_simulates {region : Path → Prop} {fresh : Bool} (position : Position)
    (optional : Bool) (owner : Outcome) {left right : Eval String}
    (key : Simulates tree region fresh left right) :
    Simulates tree region fresh
      (match owner with
      | none => return none
      | some (_, object) =>
        if optional && object.isNullish then return none
        else do
          let name ← left
          return some (object, ← readProperty position object name))
      (match owner with
      | none => return none
      | some (_, object) =>
        if optional && object.isNullish then return none
        else do
          let name ← right
          return some (object, ← readProperty position object name)) := by
  rcases owner with _ | ⟨_, object⟩
  · exact of_neutral (Neutral.pure _)
  · dsimp only
    split
    · exact of_neutral (Neutral.pure _)
    · exact andThen key fun _ => Neutral.bind (Neutral.readProperty _ _ _) fun _ => Neutral.pure _

/-- What follows the callee of a call. -/
private theorem callLink_simulates {region : Path → Prop} {fresh : Bool} {context : Context}
    {path : Path} (ready : context.Ready tree path) (position : Position) (callee : Expr)
    (optional : Bool) (outcome : Outcome) {left right : Eval (List Value)}
    (args : Simulates tree region fresh left right) :
    Simulates tree region fresh
      (match outcome with
      | none => return none
      | some (this, function) =>
        if optional && function.isNullish then return none
        else do
          let args ← left
          return plain (← callValue context position callee function this args))
      (match outcome with
      | none => return none
      | some (this, function) =>
        if optional && function.isNullish then return none
        else do
          let args ← right
          return plain (← callValue context position callee function this args)) := by
  rcases outcome with _ | ⟨this, function⟩
  · exact of_neutral (Neutral.pure _)
  · dsimp only
    split
    · exact of_neutral (Neutral.pure _)
    · exact andThen args fun _ =>
        Neutral.bind (Neutral.callValue ready _ _ _ _ _) fun _ => Neutral.pure _

mutual

/-- Every expression is followed, for whatever it is evaluated. -/
theorem eval_simulates (context : Context) (use : Use) (path : Path)
    (ready : context.Ready tree path) :
    ∀ expr : Expr, Simulates tree (Below path) context.useMemo (eval context use path expr)
      (eval context.withoutMemo use path expr)
  | .null _ => by
      rw [eval, eval]
      exact of_neutral (Neutral.pure _)
  | .boolean _ _ => by
      rw [eval, eval]
      exact of_neutral (Neutral.pure _)
  | .number _ => by
      rw [eval, eval]
      exact of_neutral (Neutral.pure _)
  | .string _ => by
      rw [eval, eval]
      exact of_neutral (Neutral.pure _)
  | .regExp _ pattern flags => by
      rw [eval, eval]
      exact of_neutral (Neutral.bind (Neutral.allocate _) fun _ => Neutral.pure _)
  | .template _ quasis holes => by
      rw [eval, eval]
      refine andThen (remember ready (itemsFrom 0) ?_) fun _ => Neutral.pure _
      exact andThen (evalTemplate_simulates context path ready 0 quasis holes)
        fun _ => Neutral.pure _
  | .ident id => by
      rw [eval, eval]
      exact of_neutral (Neutral.bind (Neutral.readName context id) fun _ => Neutral.pure _)
  | .this _ => by
      rw [eval, eval]
      exact of_neutral (Neutral.bind (Neutral.inspect _) fun _ => Neutral.pure _)
  | .array _ elements => by
      rw [eval, eval]
      exact andThen (evalElements_simulates context path ready 0 elements).below fun _ =>
        Neutral.bind (Neutral.newArray _) fun _ => Neutral.pure _
  | .object _ properties => by
      rw [eval, eval]
      exact andThen (evalProperties_simulates context path ready 0 {} properties).below fun _ =>
        Neutral.bind (Neutral.newObject _) fun _ => Neutral.pure _
  | .paren loc inner => by
      have whole := eval_simulates context .value (.inner :: path) (ready.cons (by simp)) inner
      have callee := eval_simulates context .callee (.inner :: path) (ready.cons (by simp)) inner
      -- A member in parentheses keeps its receiver if it is called; all else is a value.
      by_cases member : use = .callee ∧ inner.kind = .memberExpression
      · obtain ⟨rfl, isMember⟩ := member
        cases inner with
        | member =>
            rw [eval_paren_callee, eval_paren_callee]
            exact andThen callee.parent fun _ => Neutral.pure _
        | _ => cases isMember
      · have notMember : use = .callee → inner.kind ≠ .memberExpression :=
          fun isCallee isMember => member ⟨isCallee, isMember⟩
        rw [eval_paren _ _ _ _ _ notMember, eval_paren _ _ _ _ _ notMember]
        exact andThen whole.valueOf.parent fun _ => Neutral.pure _
  | .arrow _ params body => by
      rw [eval, eval]
      exact of_neutral (Neutral.bind (Neutral.createFunction context path params body)
        fun _ => Neutral.pure _)
  | .unary _ op argument => by
      have operand :=
        eval_simulates context .value (.inner :: path) (ready.cons (by simp)) argument
      rw [eval, eval]
      refine andThen (remember ready (· = .inner) ?_) fun _ => Neutral.pure _
      refine after Neutral.heap fun heap => ?_
      rw [Context.withoutMemo_scope]
      split
      · exact of_neutral (Neutral.pure _)
      · exact andThen operand.valueOf.edge fun _ => Neutral.inspect _
  | .update _ op fixity argument => by
      rw [eval, eval]
      refine andThen (evalReference_simulates context (.inner :: path) (ready.cons (by simp))
        argument).parent fun reference => ?_
      refine Neutral.bind (Neutral.readReference context reference) fun _ => ?_
      refine Neutral.bind (Neutral.inspect _) fun _ => ?_
      exact Neutral.bind (Neutral.writeReference context reference _) fun _ => Neutral.pure _
  | .binary loc op left right => by
      have first := eval_simulates context .value (.left :: path) (ready.cons (by simp)) left
      have second := eval_simulates context .value (.right :: path) (ready.cons (by simp)) right
      rw [eval, eval]
      refine andThen (remember ready (fun edge => edge = .left ∨ edge = .right) ?_)
        fun _ => Neutral.pure _
      refine bindUnder _ first.valueOf.edge (by simp) fun _ => ?_
      exact andThen second.valueOf.edge fun _ => Neutral.applyBinary _ _ _ _
  | .logical _ op left right => by
      have first := eval_simulates context .value (.left :: path) (ready.cons (by simp)) left
      have second := eval_simulates context .value (.right :: path) (ready.cons (by simp)) right
      rw [eval, eval]
      refine andThen (remember ready (fun edge => edge = .left ∨ edge = .right) ?_)
        fun _ => Neutral.pure _
      refine bindUnder _ first.valueOf.edge (by simp) fun value => ?_
      split
      · exact of_neutral (Neutral.pure _)
      · exact second.valueOf.edge
  | .conditional _ test consequent alternate => by
      have first := eval_simulates context .value (.test :: path) (ready.cons (by simp)) test
      have second :=
        eval_simulates context .value (.consequent :: path) (ready.cons (by simp)) consequent
      have third :=
        eval_simulates context .value (.alternate :: path) (ready.cons (by simp)) alternate
      rw [eval, eval]
      -- Only one branch is evaluated, and the region is that of both.
      refine andThen (remember ready
        (fun edge => edge = .test ∨ (edge = .consequent ∨ edge = .alternate)) ?_)
        fun _ => Neutral.pure _
      refine bindUnder _ first.valueOf.edge (by simp) fun value => ?_
      split
      · exact second.valueOf.edge.under fun _ => .inl
      · exact third.valueOf.edge.under fun _ => .inr
  | .assign loc op target value => by
      have first := evalReference_simulates context (.target :: path) (ready.cons (by simp)) target
      have second := eval_simulates context .value (.value :: path) (ready.cons (by simp)) value
      rw [eval, eval]
      refine below (bindUnder (· = .value) first.edge (by simp) fun reference => ?_)
      cases op with
      | plain =>
          exact andThen second.valueOf.edge fun _ =>
            Neutral.bind (Neutral.writeReference context reference _) fun _ => Neutral.pure _
      | logical op =>
          refine after (Neutral.readReference context reference) fun current => ?_
          split
          · exact of_neutral (Neutral.pure _)
          · exact andThen second.valueOf.edge fun _ =>
              Neutral.bind (Neutral.writeReference context reference _) fun _ => Neutral.pure _
      | arithmetic op =>
          refine after (Neutral.readReference context reference) fun current => ?_
          exact andThen second.valueOf.edge fun _ =>
            Neutral.bind (Neutral.applyBinary _ _ _ _) fun _ =>
              Neutral.bind (Neutral.writeReference context reference _) fun _ => Neutral.pure _
  | .destructure _ _ pattern value => by
      have first := eval_simulates context .value (.value :: path) (ready.cons (by simp)) value
      rw [eval, eval]
      refine below (bindUnder (· = .pattern) first.valueOf.edge (by simp) fun bound => ?_)
      exact andThen (bind_simulates context (.pattern :: path) (ready.cons (by simp)) {} bound
        pattern).edge fun _ => Neutral.bind (Neutral.modifyHeap _) fun _ => Neutral.pure _
  | .sequence _ items => by
      rw [eval, eval]
      exact andThen (evalSequence_simulates context path ready 0 .undefined items).below
        fun _ => Neutral.pure _
  | .member loc owner key optional => by
      have first := eval_simulates context .link (.object :: path) (ready.cons (by simp)) owner
      have second := evalMemberKey_simulates context (.key :: path) (ready.cons (by simp)) key
      have link := bindUnder (· = .key) first.edge (by simp)
        fun outcome => memberLink_simulates loc.start optional outcome second.edge
      cases use with
      | value =>
          rw [eval, eval]
          exact andThen (remember ready _ link.valueOf) fun _ => Neutral.pure _
      | link =>
          rw [eval, eval]
          exact andThen link.below fun _ => Neutral.pure _
      | callee =>
          rw [eval, eval]
          exact link.below
  | .call loc callee args optional => by
      have first := eval_simulates context .callee (.callee :: path) (ready.cons (by simp)) callee
      have second := evalArguments_simulates context path ready 0 args
      have link := bindUnder (itemsFrom 0) first.edge (by simp [itemsFrom])
        fun outcome => callLink_simulates ready loc.start callee optional outcome second
      cases use with
      | value =>
          rw [eval, eval]
          exact andThen (remember ready _ link.valueOf) fun _ => Neutral.pure _
      | link =>
          rw [eval, eval]
          · exact link.below
          · simp
          · simp
      | callee =>
          rw [eval, eval]
          · exact link.below
          · simp
          · simp
  | .new loc callee args => by
      have first := eval_simulates context .value (.callee :: path) (ready.cons (by simp)) callee
      have second := evalArguments_simulates context path ready 0 args
      rw [eval, eval]
      refine andThen (remember ready (fun edge => edge = .callee ∨ itemsFrom 0 edge) ?_)
        fun _ => Neutral.pure _
      refine bindUnder _ first.valueOf.edge (by simp [itemsFrom]) fun _ => ?_
      exact andThen second fun _ => Neutral.constructValue ready _ _ _ _
  | .tagged loc tag _ quasis holes => by
      have first := eval_simulates context .callee (.tag :: path) (ready.cons (by simp)) tag
      have second := evalHoles_simulates context path ready 0 holes
      rw [eval, eval]
      refine andThen (remember ready (fun edge => edge = .tag ∨ itemsFrom 0 edge) ?_)
        fun _ => Neutral.pure _
      refine bindUnder _ first.edge (by simp [itemsFrom]) fun _ => ?_
      refine after (Neutral.templateStrings _) fun _ => ?_
      exact andThen second fun _ => Neutral.callValue ready _ _ _ _ _
  | .spread loc _ => by
      rw [eval, eval]
      exact of_neutral (Neutral.raise _ _)

theorem evalReference_simulates (context : Context) (path : Path)
    (ready : context.Ready tree path) :
    ∀ expr : Expr, Simulates tree (Below path) context.useMemo (evalReference context path expr)
      (evalReference context.withoutMemo path expr)
  | .paren _ inner => by
      rw [evalReference, evalReference]
      exact (evalReference_simulates context (.inner :: path) (ready.cons (by simp)) inner).parent
  | .ident id => by
      rw [evalReference, evalReference]
      exact of_neutral (Neutral.pure _)
  | .member loc owner key _ => by
      have first := eval_simulates context .value (.object :: path) (ready.cons (by simp)) owner
      have second := evalMemberKey_simulates context (.key :: path) (ready.cons (by simp)) key
      rw [evalReference, evalReference]
      exact below (bindUnder _ first.valueOf.edge (by simp)
        fun _ => andThen second.edge fun _ => Neutral.pure _)
  | .null _ | .boolean _ _ | .number _ | .string _ | .regExp _ _ _ | .template _ _ _ | .this _
  | .array _ _ | .object _ _ | .arrow _ _ _ | .unary _ _ _ | .update _ _ _ _ | .binary _ _ _ _
  | .logical _ _ _ _ | .conditional _ _ _ _ | .assign _ _ _ _ | .destructure _ _ _ _
  | .sequence _ _ | .call _ _ _ _ | .new _ _ _ | .tagged _ _ _ _ _ | .spread _ _ => by
      simp only [evalReference]
      exact of_neutral (Neutral.raise _ _)

theorem evalMemberKey_simulates (context : Context) (path : Path)
    (ready : context.Ready tree path) :
    ∀ key : MemberKey, Simulates tree (Below path) context.useMemo
      (evalMemberKey context path key) (evalMemberKey context.withoutMemo path key)
  | .name _ => by
      rw [evalMemberKey, evalMemberKey]
      exact of_neutral (Neutral.pure _)
  | .computed key => by
      rw [evalMemberKey, evalMemberKey]
      exact andThen (eval_simulates context .value path ready key).valueOf
        fun _ => Neutral.inspect _

theorem evalPropertyKey_simulates (context : Context) (path : Path)
    (ready : context.Ready tree path) :
    ∀ key : PropertyKey, Simulates tree (Below path) context.useMemo
      (evalPropertyKey context path key) (evalPropertyKey context.withoutMemo path key)
  | .name _ => by
      rw [evalPropertyKey, evalPropertyKey]
      exact of_neutral (Neutral.pure _)
  | .string _ => by
      rw [evalPropertyKey, evalPropertyKey]
      exact of_neutral (Neutral.pure _)
  | .number _ => by
      rw [evalPropertyKey, evalPropertyKey]
      exact of_neutral (Neutral.pure _)
  | .computed key => by
      rw [evalPropertyKey, evalPropertyKey]
      exact andThen (eval_simulates context .value path ready key).valueOf
        fun _ => Neutral.inspect _

theorem evalTemplate_simulates (context : Context) (path : Path)
    (ready : context.Ready tree path) (index : Nat) :
    ∀ (quasis : List Quasi) (holes : List Expr),
      Simulates tree (Under path (itemsFrom index)) context.useMemo
        (evalTemplate context path index quasis holes)
        (evalTemplate context.withoutMemo path index quasis holes)
  | [], _ => by
      rw [evalTemplate, evalTemplate]
      exact of_neutral (Neutral.pure _)
  | quasi :: quasis, [] => by
      rw [evalTemplate, evalTemplate]
      exact of_neutral (Neutral.pure _)
  | quasi :: quasis, hole :: holes => by
      rw [evalTemplate, evalTemplate]
      refine bindItem (eval_simulates context .value (.item index :: path) (ready.cons (by simp))
        hole).valueOf fun _ => after (Neutral.inspect _) fun _ => ?_
      exact andThen (evalTemplate_simulates context path ready (index + 1) quasis holes)
        fun _ => Neutral.pure _

theorem evalHoles_simulates (context : Context) (path : Path)
    (ready : context.Ready tree path) (index : Nat) :
    ∀ holes : List Expr, Simulates tree (Under path (itemsFrom index)) context.useMemo
      (evalHoles context path index holes) (evalHoles context.withoutMemo path index holes)
  | [] => by
      rw [evalHoles, evalHoles]
      exact of_neutral (Neutral.pure _)
  | hole :: holes => by
      rw [evalHoles, evalHoles]
      refine bindItem (eval_simulates context .value (.item index :: path) (ready.cons (by simp))
        hole).valueOf fun _ => ?_
      exact andThen (evalHoles_simulates context path ready (index + 1) holes)
        fun _ => Neutral.pure _

theorem evalSequence_simulates (context : Context) (path : Path)
    (ready : context.Ready tree path) (index : Nat) (last : Value) :
    ∀ items : List Expr, Simulates tree (Under path (itemsFrom index)) context.useMemo
      (evalSequence context path index last items)
      (evalSequence context.withoutMemo path index last items)
  | [] => by
      rw [evalSequence, evalSequence]
      exact of_neutral (Neutral.pure _)
  | item :: items => by
      rw [evalSequence, evalSequence]
      exact bindItem (eval_simulates context .value (.item index :: path) (ready.cons (by simp))
        item).valueOf fun value => evalSequence_simulates context path ready (index + 1) value items

theorem evalArguments_simulates (context : Context) (path : Path)
    (ready : context.Ready tree path) (index : Nat) :
    ∀ args : List Expr, Simulates tree (Under path (itemsFrom index)) context.useMemo
      (evalArguments context path index args) (evalArguments context.withoutMemo path index args)
  | [] => by
      rw [evalArguments, evalArguments]
      exact of_neutral (Neutral.pure _)
  | argument :: args => by
      have first := eval_simulates context .value (.item index :: path) (ready.cons (by simp))
        argument
      have second := evalArguments_simulates context path ready (index + 1) args
      cases argument with
      | spread _ inner =>
          have spread := eval_simulates context .value (.inner :: .item index :: path)
            ((ready.cons (by simp)).cons (by simp)) inner
          rw [evalArguments, evalArguments]
          refine bindItem spread.valueOf.parent fun _ => ?_
          exact after (Neutral.spreadValues _ _) fun _ => andThen second fun _ => Neutral.pure _
      | _ =>
          rw [evalArguments_cons _ _ _ _ _ (by simp), evalArguments_cons _ _ _ _ _ (by simp)]
          exact bindItem first.valueOf fun _ => andThen second fun _ => Neutral.pure _

theorem evalElements_simulates (context : Context) (path : Path)
    (ready : context.Ready tree path) (index : Nat) :
    ∀ elements : List (Option Expr),
      Simulates tree (Under path (itemsFrom index)) context.useMemo
        (evalElements context path index elements)
        (evalElements context.withoutMemo path index elements)
  | [] => by
      rw [evalElements, evalElements]
      exact of_neutral (Neutral.pure _)
  | none :: elements => by
      rw [evalElements, evalElements]
      exact skipItem (andThen (evalElements_simulates context path ready (index + 1) elements)
        fun _ => Neutral.pure _)
  | some element :: elements => by
      have first := eval_simulates context .value (.item index :: path) (ready.cons (by simp))
        element
      have second := evalElements_simulates context path ready (index + 1) elements
      cases element with
      | spread _ inner =>
          have spread := eval_simulates context .value (.inner :: .item index :: path)
            ((ready.cons (by simp)).cons (by simp)) inner
          rw [evalElements, evalElements]
          refine bindItem spread.valueOf.parent fun _ => ?_
          exact after (Neutral.spreadValues _ _) fun _ => andThen second fun _ => Neutral.pure _
      | _ =>
          rw [evalElements_some _ _ _ _ _ (by simp), evalElements_some _ _ _ _ _ (by simp)]
          exact bindItem first.valueOf fun _ => andThen second fun _ => Neutral.pure _

theorem evalProperties_simulates (context : Context) (path : Path)
    (ready : context.Ready tree path) (index : Nat) (record : Record) :
    ∀ properties : List Property,
      Simulates tree (Under path (itemsFrom index)) context.useMemo
        (evalProperties context path index record properties)
        (evalProperties context.withoutMemo path index record properties)
  | [] => by
      rw [evalProperties, evalProperties]
      exact of_neutral (Neutral.pure _)
  | .field _ key value _ :: properties => by
      have ready' : context.Ready tree (.item index :: path) := ready.cons (by simp)
      have first := evalPropertyKey_simulates context (.key :: .item index :: path)
        (ready'.cons (by simp)) key
      have second := eval_simulates context .value (.value :: .item index :: path)
        (ready'.cons (by simp)) value
      rw [evalProperties, evalProperties]
      refine bindKey first fun name => bindField second.valueOf fun value => ?_
      exact evalProperties_simulates context path ready (index + 1) (record.set name value)
        properties
  | .spread _ argument :: properties => by
      have first := eval_simulates context .value (.inner :: .item index :: path)
        ((ready.cons (by simp)).cons (by simp)) argument
      rw [evalProperties, evalProperties]
      refine bindItem first.valueOf.parent fun _ => after (Neutral.inspect _) fun _ => ?_
      exact evalProperties_simulates context path ready (index + 1) _ properties

theorem bind_simulates (context : Context) (path : Path) (ready : context.Ready tree path)
    (bindings : Record) (value : Value) :
    ∀ pattern : Pattern, Simulates tree (Below path) context.useMemo
      (bind context path bindings value pattern)
      (bind context.withoutMemo path bindings value pattern)
  | .ident id => by
      rw [bind, bind]
      exact of_neutral (Neutral.pure _)
  | .rest _ argument => by
      rw [bind, bind]
      exact (bind_simulates context (.inner :: path) (ready.cons (by simp)) bindings value
        argument).parent
  | .withDefault _ target fallback => by
      have first := fun scope => eval_simulates { context with scope } .value (.value :: path)
        ((ready.withScope scope).cons (by simp)) fallback
      have second := fun value => bind_simulates context (.target :: path) (ready.cons (by simp))
        bindings value target
      rw [bind, bind]
      split
      · refine inPattern bindings fun scope => ?_
        exact below (bindUnder (· = .target) (first scope).valueOf.edge (by simp)
          fun value => (second value).edge)
      · exact (second value).parent
  | .array loc elements => by
      rw [bind, bind]
      split
      · exact of_neutral (Neutral.nullishTarget _ _)
      · refine after (Neutral.spreadValues _ _) fun items => ?_
        exact (bindElements_simulates context path ready 0 bindings items elements).below
  | .object loc properties => by
      rw [bind, bind]
      split
      · exact of_neutral (Neutral.nullishTarget _ _)
      · exact (bindProperties_simulates context path ready 0 bindings value [] properties).below

theorem bindElements_simulates (context : Context) (path : Path)
    (ready : context.Ready tree path) (index : Nat) (bindings : Record) (items : List Value) :
    ∀ elements : List (Option Pattern),
      Simulates tree (Under path (itemsFrom index)) context.useMemo
        (bindElements context path index bindings items elements)
        (bindElements context.withoutMemo path index bindings items elements)
  | [] => by
      rw [bindElements, bindElements]
      exact of_neutral (Neutral.pure _)
  | none :: elements => by
      rw [bindElements, bindElements]
      exact skipItem (bindElements_simulates context path ready (index + 1) bindings items.tail
        elements)
  | some element :: elements => by
      have first := bind_simulates context (.item index :: path) (ready.cons (by simp)) bindings
        (items.head?.getD .undefined) element
      have second := fun bindings =>
        bindElements_simulates context path ready (index + 1) bindings items.tail elements
      cases element with
      | rest _ argument =>
          have rest := fun array => bind_simulates context (.inner :: .item index :: path)
            ((ready.cons (by simp)).cons (by simp)) bindings array argument
          rw [bindElements, bindElements]
          exact after (Neutral.newArray _) fun array => bindItem (rest array).parent second
      | _ =>
          rw [bindElements_some _ _ _ _ _ _ _ (by simp), bindElements_some _ _ _ _ _ _ _ (by simp)]
          exact bindItem first second

theorem bindProperties_simulates (context : Context) (path : Path)
    (ready : context.Ready tree path) (index : Nat) (bindings : Record) (value : Value)
    (taken : List String) :
    ∀ properties : List PatternProperty,
      Simulates tree (Under path (itemsFrom index)) context.useMemo
        (bindProperties context path index bindings value taken properties)
        (bindProperties context.withoutMemo path index bindings value taken properties)
  | [] => by
      rw [bindProperties, bindProperties]
      exact of_neutral (Neutral.pure _)
  | .field loc key pattern _ :: properties => by
      have ready' : context.Ready tree (.item index :: path) := ready.cons (by simp)
      have first := evalPatternKey_simulates context (.key :: .item index :: path)
        (ready'.cons (by simp)) bindings key
      have second := fun item => bind_simulates context (.value :: .item index :: path)
        (ready'.cons (by simp)) bindings item pattern
      rw [bindProperties, bindProperties]
      refine bindKey first fun name => after (Neutral.readProperty _ _ _) fun item => ?_
      refine bindField (second item) fun bindings => ?_
      exact bindProperties_simulates context path ready (index + 1) bindings value (name :: taken)
        properties
  | .rest _ argument :: properties => by
      have first := fun others => bind_simulates context (.inner :: .item index :: path)
        ((ready.cons (by simp)).cons (by simp)) bindings others argument
      rw [bindProperties, bindProperties]
      refine after (Neutral.inspect _) fun _ => after (Neutral.newObject _) fun others => ?_
      refine bindItem (first others).parent fun _ => ?_
      exact bindProperties_simulates context path ready (index + 1) _ value taken properties

theorem evalPatternKey_simulates (context : Context) (path : Path)
    (ready : context.Ready tree path) (bindings : Record) :
    ∀ key : PropertyKey, Simulates tree (Below path) context.useMemo
      (evalPatternKey context path bindings key)
      (evalPatternKey context.withoutMemo path bindings key)
  | .name _ => by
      rw [evalPatternKey, evalPatternKey]
      exact of_neutral (Neutral.pure _)
  | .string _ => by
      rw [evalPatternKey, evalPatternKey]
      exact of_neutral (Neutral.pure _)
  | .number _ => by
      rw [evalPatternKey, evalPatternKey]
      exact of_neutral (Neutral.pure _)
  | .computed key => by
      have first := fun scope => eval_simulates { context with scope } .value path
        (ready.withScope scope) key
      rw [evalPatternKey, evalPatternKey]
      refine inPattern bindings fun scope => ?_
      exact andThen (first scope).valueOf fun _ => Neutral.inspect _

end

end Eval

end ExprScript
