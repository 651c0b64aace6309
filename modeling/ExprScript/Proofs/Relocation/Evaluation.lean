import ExprScript.Proofs.Memo.Evaluation
import ExprScript.Proofs.Relocation.World

/-! # Evaluation at another place

An expression that is evaluated without remembered results has the same value and the same
effects wherever it stands in whichever tree.
-/

namespace ExprScript

def Context.movedTo (context : Context) (tree : Nat) : Context := { context with tree }

theorem Context.movedTo_scope (context : Context) (tree : Nat) :
    (context.movedTo tree).scope = context.scope := rfl

/-- Remembered results are not used, and calls do not depend on the places of functions. -/
structure Context.Placeless (context : Context) : Prop where
  call : ∀ ref this args, Relocates (context.call ref this args) (context.call ref this args)
  unused : context.useMemo = false

theorem Context.Placeless.withScope {context : Context} (placeless : context.Placeless)
    (scope : Scope) : Context.Placeless { context with scope } :=
  ⟨placeless.call, placeless.unused⟩

/-- What is remembered is not used. -/
theorem Eval.memoized_of_unused {context : Context} (unused : context.useMemo = false)
    (path : Path) (action : Eval Value) : memoized context path action = (do
      let value ← action
      modify fun world =>
        { world with memo := world.memo.set { tree := context.tree, path } value }
      return value) := by
  funext world
  simp only [memoized, unused]
  rfl

/-- Whether a result is remembered does not show. -/
theorem Relates.rememberedLeft {β : Type} {failures : Failure → Failure → Prop}
    {post : Value → β → Prop} {context : Context} (unused : context.useMemo = false)
    {path : Path} {left : Eval Value} {right : Eval β}
    (relates : Relates failures post left right) :
    Relates failures post (Eval.memoized context path left) right := by
  rw [Eval.memoized_of_unused unused, ← bind_pure right]
  apply bind relates
  intro value value' holds before before' congruent
  exact .ok holds ⟨congruent.heap, congruent.log, congruent.nextTree⟩

namespace Relocates

variable {α : Type} {context : Context} {path path' : Path} {tree : Nat}

theorem remembered {left right : Eval Value} (unused : context.useMemo = false)
    (relocates : Relocates left right) :
    Relocates (Eval.memoized context path left)
      (Eval.memoized (context.movedTo tree) path' right) := by
  rw [Eval.memoized_of_unused unused, @Eval.memoized_of_unused (context.movedTo tree) unused]
  apply bind relocates
  intro value before before' congruent
  exact .ok rfl ⟨congruent.heap, congruent.log, congruent.nextTree⟩

theorem valueOf {left right : Eval Outcome} (relocates : Relocates left right) :
    Relocates (Eval.valueOf left) (Eval.valueOf right) :=
  bind relocates fun _ => pure _

theorem plainly {left right : Eval Value} (relocates : Relocates left right) :
    Relocates (do return Eval.plain (← left)) (do return Eval.plain (← right)) :=
  bind relocates fun _ => pure _

theorem readName (context : Context) (id : Ident) (tree : Nat) :
    Relocates (Eval.readName context id) (Eval.readName (context.movedTo tree) id) := by
  apply bind (inspect fun _ => rfl)
  intro found
  split
  · exact pure _
  · split
    · exact pure _
    · exact raise _ _

theorem readReference (context : Context) (reference : Reference) (tree : Nat) :
    Relocates (Eval.readReference context reference)
      (Eval.readReference (context.movedTo tree) reference) := by
  cases reference with
  | name id => exact readName context id tree
  | property object key position => exact readProperty position object key

theorem writeReference (context : Context) (reference : Reference) (value : Value) (tree : Nat) :
    Relocates (Eval.writeReference context reference value)
      (Eval.writeReference (context.movedTo tree) reference value) := by
  cases reference with
  | name id => exact @modifyHeap (·.assign context.scope id.name value) fun _ => rfl
  | property object key position => exact writeProperty position object key value

theorem callValue (placeless : context.Placeless) (position : Position) (callee : Expr)
    (function this : Value) (args : List Value) (tree : Nat) :
    Relocates (Eval.callValue context position callee function this args)
      (Eval.callValue (context.movedTo tree) position callee function this args) := by
  unfold Eval.callValue
  split
  · exact anchored position (placeless.call _ _ _)
  · exact raise _ _
  · exact raise _ _

theorem constructValue (placeless : context.Placeless) (position : Position) (callee : Expr)
    (function : Value) (args : List Value) (tree : Nat) :
    Relocates (Eval.constructValue context position callee function args)
      (Eval.constructValue (context.movedTo tree) position callee function args) := by
  cases function with
  | function ref =>
      have constructible : ∀ heap : Heap,
          (heap.placeless.function ref).constructible = (heap.function ref).constructible := by
        intro heap
        rw [Heap.function_placeless]
        rfl
      have same : Relates Eq (fun left right => left.constructible = right.constructible)
          (Eval.inspect fun heap => heap.function ref)
          (Eval.inspect fun heap => heap.function ref) :=
        Relates.bind heap fun _ _ congruent =>
          Relates.pure
            (congruent.same (fun heap => (heap.function ref).constructible) constructible)
      apply Relates.bind same
      intro left right same
      rw [same]
      split
      · apply bind (newObject _)
        intro this
        exact bind (anchored position (placeless.call _ _ _)) fun _ => pure _
      · exact raise _ _
  | _ => exact raise _ _

theorem createFunction (context : Context) (path path' : Path) (params : List Pattern)
    (body : Expr) (tree : Nat) :
    Relocates (Eval.createFunction context path params body)
      (Eval.createFunction (context.movedTo tree) path' params body) := by
  refine bind (allocate ?_ ?_) fun _ => pure _
  · intro left right congruent
    have size := congrArg (fun heap : Heap => heap.functions.size) congruent
    simp only [Heap.placeless, Array.size_map] at size
    simp only [Heap.newFunction, size]
  · intro left right congruent
    rw [Heap.Congruent, Heap.newFunction_placeless, Heap.newFunction_placeless, congruent]
    rfl

/-- Names that a pattern has bound so far become visible. -/
theorem inPattern (bindings : Record) {next next' : Context → Eval α}
    (rest : ∀ scope, Relocates (next { context with scope })
      (next' { context.movedTo tree with scope })) :
    Relocates (Eval.patternContext context bindings >>= next)
      (Eval.patternContext (context.movedTo tree) bindings >>= next') := by
  simp only [Eval.patternContext, bind_assoc, pure_bind]
  exact bind (newChild _ _) rest

end Relocates

namespace Eval

open Relocates

/-- What follows the object of a member. -/
private theorem memberLink_relocates (position : Position) (optional : Bool) (owner : Outcome)
    {left right : Eval String} (key : Relocates left right) :
    Relocates
      (match owner with
      | none => return none
      | some (_, object) =>
        if optional && object.isNullish then return none
        else do
          let name ← left
          return some (object, ← readProperty position object name))
      (match owner with
      | none => return none
      | some (_, object) =>
        if optional && object.isNullish then return none
        else do
          let name ← right
          return some (object, ← readProperty position object name)) := by
  rcases owner with _ | ⟨_, object⟩
  · exact pure _
  · dsimp only
    split
    · exact pure _
    · exact Relocates.bind key fun _ =>
        Relocates.bind (Relocates.readProperty _ _ _) fun _ => pure _

/-- What follows the callee of a call. -/
private theorem callLink_relocates {context : Context} (placeless : context.Placeless)
    (tree : Nat) (position : Position) (callee : Expr) (optional : Bool) (outcome : Outcome)
    {left right : Eval (List Value)} (args : Relocates left right) :
    Relocates
      (match outcome with
      | none => return none
      | some (this, function) =>
        if optional && function.isNullish then return none
        else do
          let args ← left
          return plain (← callValue context position callee function this args))
      (match outcome with
      | none => return none
      | some (this, function) =>
        if optional && function.isNullish then return none
        else do
          let args ← right
          return plain
            (← callValue (context.movedTo tree) position callee function this args)) := by
  rcases outcome with _ | ⟨this, function⟩
  · exact pure _
  · dsimp only
    split
    · exact pure _
    · exact Relocates.bind args fun _ => (Relocates.callValue placeless _ _ _ _ _ tree).plainly

mutual

/-- Every expression, for whatever it is evaluated. -/
theorem eval_relocates (context : Context) (placeless : context.Placeless) (tree : Nat)
    (use : Use) (path path' : Path) :
    ∀ expr : Expr, Relocates (eval context use path expr)
      (eval (context.movedTo tree) use path' expr)
  | .null _ | .boolean _ _ | .number _ | .string _ => by
      rw [eval, eval]
      exact pure _
  | .regExp _ pattern flags => by
      rw [eval, eval]
      exact Relocates.bind (allocateSame (fun _ => rfl) fun _ => rfl) fun _ => pure _
  | .template _ quasis holes => by
      rw [eval, eval]
      apply plainly
      apply remembered placeless.unused
      exact Relocates.bind (evalTemplate_relocates context placeless tree path path' 0 quasis
        holes) fun _ => pure _
  | .ident id => by
      rw [eval, eval]
      exact (Relocates.readName context id tree).plainly
  | .this _ => by
      rw [eval, eval]
      exact Relocates.bind (Relocates.inspect fun _ => rfl) fun _ => pure _
  | .array _ elements => by
      rw [eval, eval]
      apply Relocates.bind (evalElements_relocates context placeless tree path path' 0 elements)
      exact fun _ => (Relocates.newArray _).plainly
  | .object _ properties => by
      rw [eval, eval]
      apply Relocates.bind
        (evalProperties_relocates context placeless tree path path' 0 {} properties)
      exact fun _ => (Relocates.newObject _).plainly
  | .paren loc inner => by
      have whole := eval_relocates context placeless tree .value (.inner :: path) (.inner :: path')
        inner
      have callee := eval_relocates context placeless tree .callee (.inner :: path)
        (.inner :: path') inner
      by_cases member : use = .callee ∧ inner.kind = .memberExpression
      · obtain ⟨rfl, isMember⟩ := member
        cases inner with
        | member =>
            rw [eval_paren_callee, eval_paren_callee]
            exact Relocates.bind callee fun _ => pure _
        | _ => cases isMember
      · have notMember : use = .callee → inner.kind ≠ .memberExpression :=
          fun isCallee isMember => member ⟨isCallee, isMember⟩
        rw [eval_paren _ _ _ _ _ notMember, eval_paren _ _ _ _ _ notMember]
        exact whole.valueOf.plainly
  | .arrow _ params body => by
      rw [eval, eval]
      exact (Relocates.createFunction context path path' params body tree).plainly
  | .unary _ op argument => by
      have operand := eval_relocates context placeless tree .value (.inner :: path)
        (.inner :: path') argument
      rw [eval, eval]
      apply plainly
      apply remembered placeless.unused
      apply Relates.bind Relocates.heap
      intro left right congruent
      have unbound : isUnboundName left context.scope argument =
          isUnboundName right context.scope argument :=
        congruent.same (isUnboundName · context.scope argument) fun _ => rfl
      rw [Context.movedTo_scope, unbound]
      split
      · exact pure _
      · exact Relocates.bind operand.valueOf fun value =>
          Relocates.inspect fun heap => heap.unary_placeless op value
  | .update _ op fixity argument => by
      rw [eval, eval]
      apply Relocates.bind (evalReference_relocates context placeless tree (.inner :: path)
        (.inner :: path') argument)
      intro reference
      apply Relocates.bind (Relocates.readReference context reference tree)
      intro old
      apply Relocates.bind (Relocates.inspect fun heap => heap.toNumber_placeless old)
      intro before
      exact Relocates.bind (Relocates.writeReference context reference _ tree) fun _ => pure _
  | .binary loc op left right => by
      have first := eval_relocates context placeless tree .value (.left :: path) (.left :: path')
        left
      have second := eval_relocates context placeless tree .value (.right :: path)
        (.right :: path') right
      rw [eval, eval]
      apply plainly
      apply remembered placeless.unused
      exact Relocates.bind first.valueOf fun _ => Relocates.bind second.valueOf fun _ =>
        Relocates.applyBinary _ _ _ _
  | .logical _ op left right => by
      have first := eval_relocates context placeless tree .value (.left :: path) (.left :: path')
        left
      have second := eval_relocates context placeless tree .value (.right :: path)
        (.right :: path') right
      rw [eval, eval]
      apply plainly
      apply remembered placeless.unused
      apply Relocates.bind first.valueOf
      intro value
      split
      · exact pure _
      · exact second.valueOf
  | .conditional _ test consequent alternate => by
      have first := eval_relocates context placeless tree .value (.test :: path) (.test :: path')
        test
      have second := eval_relocates context placeless tree .value (.consequent :: path)
        (.consequent :: path') consequent
      have third := eval_relocates context placeless tree .value (.alternate :: path)
        (.alternate :: path') alternate
      rw [eval, eval]
      apply plainly
      apply remembered placeless.unused
      apply Relocates.bind first.valueOf
      intro value
      split
      · exact second.valueOf
      · exact third.valueOf
  | .assign loc op target value => by
      have first := evalReference_relocates context placeless tree (.target :: path)
        (.target :: path') target
      have second := eval_relocates context placeless tree .value (.value :: path)
        (.value :: path') value
      have write : ∀ reference value,
          Relocates (do writeReference context reference value; return plain value)
            (do writeReference (context.movedTo tree) reference value; return plain value) :=
        fun reference value =>
          Relocates.bind (Relocates.writeReference context reference value tree) fun _ => pure _
      rw [eval, eval]
      apply Relocates.bind first
      intro reference
      cases op with
      | plain => exact Relocates.bind second.valueOf (write reference)
      | logical op =>
          apply Relocates.bind (Relocates.readReference context reference tree)
          intro current
          split
          · exact pure _
          · exact Relocates.bind second.valueOf (write reference)
      | arithmetic op =>
          apply Relocates.bind (Relocates.readReference context reference tree)
          intro current
          apply Relocates.bind second.valueOf
          intro right
          exact Relocates.bind (Relocates.applyBinary _ _ _ _) (write reference)
  | .destructure _ _ pattern value => by
      have first := eval_relocates context placeless tree .value (.value :: path)
        (.value :: path') value
      rw [eval, eval]
      apply Relocates.bind first.valueOf
      intro value
      apply Relocates.bind (bind_relocates context placeless tree (.pattern :: path)
        (.pattern :: path') {} value pattern)
      intro bindings
      exact Relocates.bind (setVariables bindings (·.assign context.scope) fun _ _ _ => rfl)
        fun _ => pure _
  | .sequence _ items => by
      rw [eval, eval]
      exact (evalSequence_relocates context placeless tree path path' 0 .undefined items).plainly
  | .member loc owner key optional => by
      have first := eval_relocates context placeless tree .link (.object :: path)
        (.object :: path') owner
      have second := evalMemberKey_relocates context placeless tree (.key :: path) (.key :: path')
        key
      have link := Relocates.bind first fun outcome =>
        memberLink_relocates loc.start optional outcome second
      cases use with
      | value =>
          rw [eval, eval]
          exact (remembered placeless.unused link.valueOf).plainly
      | link =>
          rw [eval, eval]
          exact Relocates.bind link fun _ => pure _
      | callee =>
          rw [eval, eval]
          exact link
  | .call loc callee args optional => by
      have first := eval_relocates context placeless tree .callee (.callee :: path)
        (.callee :: path') callee
      have second := evalArguments_relocates context placeless tree path path' 0 args
      have link := Relocates.bind first fun outcome =>
        callLink_relocates placeless tree loc.start callee optional outcome second
      cases use with
      | value =>
          rw [eval, eval]
          exact (remembered placeless.unused link.valueOf).plainly
      | link =>
          rw [eval, eval]
          · exact link
          · exact nofun
          · exact nofun
      | callee =>
          rw [eval, eval]
          · exact link
          · exact nofun
          · exact nofun
  | .new loc callee args => by
      have first := eval_relocates context placeless tree .value (.callee :: path)
        (.callee :: path') callee
      have second := evalArguments_relocates context placeless tree path path' 0 args
      rw [eval, eval]
      apply plainly
      apply remembered placeless.unused
      exact Relocates.bind first.valueOf fun function => Relocates.bind second fun args =>
        Relocates.constructValue placeless loc.start callee function args tree
  | .tagged loc tag _ quasis holes => by
      have first := eval_relocates context placeless tree .callee (.tag :: path) (.tag :: path')
        tag
      have second := evalHoles_relocates context placeless tree path path' 0 holes
      rw [eval, eval]
      apply plainly
      apply remembered placeless.unused
      apply Relocates.bind first
      intro outcome
      apply Relocates.bind (Relocates.templateStrings quasis)
      intro strings
      exact Relocates.bind second fun values =>
        Relocates.callValue placeless loc.start tag _ _ _ tree
  | .spread loc _ => by
      rw [eval, eval]
      exact Relocates.raise _ _

theorem evalReference_relocates (context : Context) (placeless : context.Placeless) (tree : Nat)
    (path path' : Path) :
    ∀ expr : Expr, Relocates (evalReference context path expr)
      (evalReference (context.movedTo tree) path' expr)
  | .paren _ inner => by
      rw [evalReference, evalReference]
      exact evalReference_relocates context placeless tree (.inner :: path) (.inner :: path') inner
  | .ident id => by
      rw [evalReference, evalReference]
      exact pure _
  | .member loc owner key _ => by
      have first := eval_relocates context placeless tree .value (.object :: path)
        (.object :: path') owner
      have second := evalMemberKey_relocates context placeless tree (.key :: path) (.key :: path')
        key
      rw [evalReference, evalReference]
      exact Relocates.bind first.valueOf fun _ => Relocates.bind second fun _ => pure _
  | .null _ | .boolean _ _ | .number _ | .string _ | .regExp _ _ _ | .template _ _ _ | .this _
  | .array _ _ | .object _ _ | .arrow _ _ _ | .unary _ _ _ | .update _ _ _ _ | .binary _ _ _ _
  | .logical _ _ _ _ | .conditional _ _ _ _ | .assign _ _ _ _ | .destructure _ _ _ _
  | .sequence _ _ | .call _ _ _ _ | .new _ _ _ | .tagged _ _ _ _ _ | .spread _ _ => by
      simp only [evalReference]
      exact Relocates.raise _ _

theorem evalMemberKey_relocates (context : Context) (placeless : context.Placeless) (tree : Nat)
    (path path' : Path) :
    ∀ key : MemberKey, Relocates (evalMemberKey context path key)
      (evalMemberKey (context.movedTo tree) path' key)
  | .name _ => by
      rw [evalMemberKey, evalMemberKey]
      exact pure _
  | .computed key => by
      rw [evalMemberKey, evalMemberKey]
      exact Relocates.bind (eval_relocates context placeless tree .value path path' key).valueOf
        fun value => Relocates.inspect fun heap => heap.toPropertyKey_placeless value

theorem evalPropertyKey_relocates (context : Context) (placeless : context.Placeless)
    (tree : Nat) (path path' : Path) :
    ∀ key : PropertyKey, Relocates (evalPropertyKey context path key)
      (evalPropertyKey (context.movedTo tree) path' key)
  | .name _ | .string _ | .number _ => by
      rw [evalPropertyKey, evalPropertyKey]
      exact pure _
  | .computed key => by
      rw [evalPropertyKey, evalPropertyKey]
      exact Relocates.bind (eval_relocates context placeless tree .value path path' key).valueOf
        fun value => Relocates.inspect fun heap => heap.toPropertyKey_placeless value

theorem evalTemplate_relocates (context : Context) (placeless : context.Placeless) (tree : Nat)
    (path path' : Path) (index : Nat) :
    ∀ (quasis : List Quasi) (holes : List Expr),
      Relocates (evalTemplate context path index quasis holes)
        (evalTemplate (context.movedTo tree) path' index quasis holes)
  | [], _ => by
      rw [evalTemplate, evalTemplate]
      exact pure _
  | quasi :: quasis, [] => by
      rw [evalTemplate, evalTemplate]
      exact pure _
  | quasi :: quasis, hole :: holes => by
      have first := eval_relocates context placeless tree .value (.item index :: path)
        (.item index :: path') hole
      rw [evalTemplate, evalTemplate]
      apply Relocates.bind first.valueOf
      intro value
      apply Relocates.bind (Relocates.inspect fun heap => heap.toText_placeless value)
      intro text
      exact Relocates.bind (evalTemplate_relocates context placeless tree path path' (index + 1)
        quasis holes) fun _ => pure _

theorem evalHoles_relocates (context : Context) (placeless : context.Placeless) (tree : Nat)
    (path path' : Path) (index : Nat) :
    ∀ holes : List Expr, Relocates (evalHoles context path index holes)
      (evalHoles (context.movedTo tree) path' index holes)
  | [] => by
      rw [evalHoles, evalHoles]
      exact pure _
  | hole :: holes => by
      have first := eval_relocates context placeless tree .value (.item index :: path)
        (.item index :: path') hole
      rw [evalHoles, evalHoles]
      apply Relocates.bind first.valueOf
      intro value
      exact Relocates.bind (evalHoles_relocates context placeless tree path path' (index + 1)
        holes) fun _ => pure _

theorem evalSequence_relocates (context : Context) (placeless : context.Placeless) (tree : Nat)
    (path path' : Path) (index : Nat) (last : Value) :
    ∀ items : List Expr, Relocates (evalSequence context path index last items)
      (evalSequence (context.movedTo tree) path' index last items)
  | [] => by
      rw [evalSequence, evalSequence]
      exact pure _
  | item :: items => by
      have first := eval_relocates context placeless tree .value (.item index :: path)
        (.item index :: path') item
      rw [evalSequence, evalSequence]
      exact Relocates.bind first.valueOf fun value =>
        evalSequence_relocates context placeless tree path path' (index + 1) value items

theorem evalArguments_relocates (context : Context) (placeless : context.Placeless) (tree : Nat)
    (path path' : Path) (index : Nat) :
    ∀ args : List Expr, Relocates (evalArguments context path index args)
      (evalArguments (context.movedTo tree) path' index args)
  | [] => by
      rw [evalArguments, evalArguments]
      exact pure _
  | argument :: args => by
      have first := eval_relocates context placeless tree .value (.item index :: path)
        (.item index :: path') argument
      have second := evalArguments_relocates context placeless tree path path' (index + 1) args
      cases argument with
      | spread _ inner =>
          have spread := eval_relocates context placeless tree .value
            (.inner :: .item index :: path) (.inner :: .item index :: path') inner
          rw [evalArguments, evalArguments]
          exact Relocates.bind spread.valueOf fun _ =>
            Relocates.bind (Relocates.spreadValues _ _) fun _ =>
              Relocates.bind second fun _ => pure _
      | _ =>
          rw [evalArguments_cons _ _ _ _ _ (by simp), evalArguments_cons _ _ _ _ _ (by simp)]
          exact Relocates.bind first.valueOf fun _ => Relocates.bind second fun _ => pure _

theorem evalElements_relocates (context : Context) (placeless : context.Placeless) (tree : Nat)
    (path path' : Path) (index : Nat) :
    ∀ elements : List (Option Expr), Relocates (evalElements context path index elements)
      (evalElements (context.movedTo tree) path' index elements)
  | [] => by
      rw [evalElements, evalElements]
      exact pure _
  | none :: elements => by
      rw [evalElements, evalElements]
      exact Relocates.bind (evalElements_relocates context placeless tree path path' (index + 1)
        elements) fun _ => pure _
  | some element :: elements => by
      have first := eval_relocates context placeless tree .value (.item index :: path)
        (.item index :: path') element
      have second := evalElements_relocates context placeless tree path path' (index + 1) elements
      cases element with
      | spread _ inner =>
          have spread := eval_relocates context placeless tree .value
            (.inner :: .item index :: path) (.inner :: .item index :: path') inner
          rw [evalElements, evalElements]
          exact Relocates.bind spread.valueOf fun _ =>
            Relocates.bind (Relocates.spreadValues _ _) fun _ =>
              Relocates.bind second fun _ => pure _
      | _ =>
          rw [evalElements_some _ _ _ _ _ (by simp), evalElements_some _ _ _ _ _ (by simp)]
          exact Relocates.bind first.valueOf fun _ => Relocates.bind second fun _ => pure _

theorem evalProperties_relocates (context : Context) (placeless : context.Placeless) (tree : Nat)
    (path path' : Path) (index : Nat) (record : Record) :
    ∀ properties : List Property, Relocates (evalProperties context path index record properties)
      (evalProperties (context.movedTo tree) path' index record properties)
  | [] => by
      rw [evalProperties, evalProperties]
      exact pure _
  | .field _ key value _ :: properties => by
      have first := evalPropertyKey_relocates context placeless tree (.key :: .item index :: path)
        (.key :: .item index :: path') key
      have second := eval_relocates context placeless tree .value (.value :: .item index :: path)
        (.value :: .item index :: path') value
      rw [evalProperties, evalProperties]
      exact Relocates.bind first fun name => Relocates.bind second.valueOf fun value =>
        evalProperties_relocates context placeless tree path path' (index + 1) _ properties
  | .spread _ argument :: properties => by
      have first := eval_relocates context placeless tree .value (.inner :: .item index :: path)
        (.inner :: .item index :: path') argument
      rw [evalProperties, evalProperties]
      apply Relocates.bind first.valueOf
      intro value
      apply Relocates.bind (Relocates.inspect fun heap => heap.ownEntries_placeless value)
      exact fun _ =>
        evalProperties_relocates context placeless tree path path' (index + 1) _ properties

theorem bind_relocates (context : Context) (placeless : context.Placeless) (tree : Nat)
    (path path' : Path) (bindings : Record) (value : Value) :
    ∀ pattern : Pattern, Relocates (bind context path bindings value pattern)
      (bind (context.movedTo tree) path' bindings value pattern)
  | .ident id => by
      rw [bind, bind]
      exact pure _
  | .rest _ argument => by
      rw [bind, bind]
      exact bind_relocates context placeless tree (.inner :: path) (.inner :: path') bindings value
        argument
  | .withDefault _ target fallback => by
      have first := fun scope => eval_relocates { context with scope } (placeless.withScope scope)
        tree .value (.value :: path) (.value :: path') fallback
      have second := fun value => bind_relocates context placeless tree (.target :: path)
        (.target :: path') bindings value target
      rw [bind, bind]
      split
      · apply inPattern bindings
        exact fun scope => Relocates.bind (first scope).valueOf second
      · exact second value
  | .array loc elements => by
      rw [bind, bind]
      split
      · exact Relocates.nullishTarget _ _
      · exact Relocates.bind (Relocates.spreadValues _ _) fun items =>
          bindElements_relocates context placeless tree path path' 0 bindings items elements
  | .object loc properties => by
      rw [bind, bind]
      split
      · exact Relocates.nullishTarget _ _
      · exact bindProperties_relocates context placeless tree path path' 0 bindings value []
          properties

theorem bindElements_relocates (context : Context) (placeless : context.Placeless) (tree : Nat)
    (path path' : Path) (index : Nat) (bindings : Record) (items : List Value) :
    ∀ elements : List (Option Pattern),
      Relocates (bindElements context path index bindings items elements)
        (bindElements (context.movedTo tree) path' index bindings items elements)
  | [] => by
      rw [bindElements, bindElements]
      exact pure _
  | none :: elements => by
      rw [bindElements, bindElements]
      exact bindElements_relocates context placeless tree path path' (index + 1) bindings
        items.tail elements
  | some element :: elements => by
      have first := bind_relocates context placeless tree (.item index :: path)
        (.item index :: path') bindings (items.head?.getD .undefined) element
      have second := fun bindings => bindElements_relocates context placeless tree path path'
        (index + 1) bindings items.tail elements
      cases element with
      | rest _ argument =>
          have rest := fun array => bind_relocates context placeless tree
            (.inner :: .item index :: path) (.inner :: .item index :: path') bindings array argument
          rw [bindElements, bindElements]
          exact Relocates.bind (Relocates.newArray _) fun array =>
            Relocates.bind (rest array) second
      | _ =>
          rw [bindElements_some _ _ _ _ _ _ _ (by simp), bindElements_some _ _ _ _ _ _ _ (by simp)]
          exact Relocates.bind first second

theorem bindProperties_relocates (context : Context) (placeless : context.Placeless) (tree : Nat)
    (path path' : Path) (index : Nat) (bindings : Record) (value : Value) (taken : List String) :
    ∀ properties : List PatternProperty,
      Relocates (bindProperties context path index bindings value taken properties)
        (bindProperties (context.movedTo tree) path' index bindings value taken properties)
  | [] => by
      rw [bindProperties, bindProperties]
      exact pure _
  | .field loc key pattern _ :: properties => by
      have first := evalPatternKey_relocates context placeless tree (.key :: .item index :: path)
        (.key :: .item index :: path') bindings key
      have second := fun item => bind_relocates context placeless tree
        (.value :: .item index :: path) (.value :: .item index :: path') bindings item pattern
      rw [bindProperties, bindProperties]
      apply Relocates.bind first
      intro name
      apply Relocates.bind (Relocates.readProperty _ _ _)
      intro item
      apply Relocates.bind (second item)
      exact fun bindings => bindProperties_relocates context placeless tree path path' (index + 1)
        bindings value (name :: taken) properties
  | .rest _ argument :: properties => by
      have first := fun others => bind_relocates context placeless tree
        (.inner :: .item index :: path) (.inner :: .item index :: path') bindings others argument
      rw [bindProperties, bindProperties]
      apply Relocates.bind (Relocates.inspect fun heap => heap.ownEntries_placeless value)
      intro entries
      apply Relocates.bind (Relocates.newObject _)
      intro others
      apply Relocates.bind (first others)
      exact fun bindings => bindProperties_relocates context placeless tree path path' (index + 1)
        bindings value taken properties

theorem evalPatternKey_relocates (context : Context) (placeless : context.Placeless) (tree : Nat)
    (path path' : Path) (bindings : Record) :
    ∀ key : PropertyKey, Relocates (evalPatternKey context path bindings key)
      (evalPatternKey (context.movedTo tree) path' bindings key)
  | .name _ | .string _ | .number _ => by
      rw [evalPatternKey, evalPatternKey]
      exact pure _
  | .computed key => by
      have first := fun scope => eval_relocates { context with scope } (placeless.withScope scope)
        tree .value path path' key
      rw [evalPatternKey, evalPatternKey]
      apply inPattern bindings
      exact fun scope => Relocates.bind (first scope).valueOf fun value =>
        Relocates.inspect fun heap => heap.toPropertyKey_placeless value

end

end Eval

end ExprScript
