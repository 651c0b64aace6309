import ExprScript.Proofs.Shown.Rules

/-! # Evaluation of what a text shows

An expression that is evaluated without remembered results has the same value and the same
effects as the tree that its text shows.
-/

namespace ExprScript

/-! ## What the evaluation looks at -/

namespace Expr

theorem not_spread_grouped {expr : Expr} (notSpread : ∀ loc inner, expr ≠ .spread loc inner)
    (needed : Bool) : ∀ loc inner, expr.shown.grouped needed ≠ .spread loc inner := by
  intro loc inner same
  cases needed with
  | true => cases same
  | false =>
      have isSpread : expr.shown.isSpread = true := by
        rw [show expr.shown = .spread loc inner from same]
        rfl
      rw [isSpread_shown] at isSpread
      cases expr with
      | spread loc inner => exact notSpread loc inner rfl
      | _ => cases isSpread

theorem isMember_shown (expr : Expr) :
    expr.shown.kind ≠ .memberExpression ↔ expr.kind ≠ .memberExpression := by
  cases expr with
  | number literal =>
      have cases := literal.shown_cases
      rw [shown]
      generalize literal.shown = expr at cases ⊢
      cases cases <;> exact ⟨fun _ => nofun, fun _ => nofun⟩
  | update loc op fixity argument => cases fixity <;> rfl
  | binary loc op left right =>
      rw [shown]
      split <;> rfl
  | member loc owner key optional => cases key <;> rfl
  | _ => rfl

def isPlace : Expr → Bool
  | .paren .. | .ident _ | .member .. => true
  | _ => false

theorem isPlace_shown (expr : Expr) : expr.shown.isPlace = expr.isPlace := by
  cases expr with
  | number literal => exact literal.flag_shown (fun _ => rfl) (fun _ _ _ => rfl) fun _ _ _ _ => rfl
  | update loc op fixity argument => cases fixity <;> rfl
  | binary loc op left right =>
      rw [shown]
      split <;> rfl
  | member loc owner key optional => cases key <;> rfl
  | _ => rfl

theorem shown_spread_item (loc : Span) (argument : Expr) :
    (Expr.spread loc argument).shown.grouped
        ((Expr.spread loc argument).precedence < Precedence.assignment) =
      .spread {} (argument.shown.grouped (argument.precedence < Precedence.assignment)) := rfl

end Expr

namespace MemberKey

def shown : MemberKey → MemberKey
  | .name id => .name id.erase
  | .computed key => .computed key.shown

def encloses (owner : Expr) : MemberKey → Bool
  | .name _ => owner.isNumber || decide (owner.precedence < Precedence.call)
  | .computed _ => decide (owner.precedence < Precedence.call)

theorem loose_of_encloses {owner : Expr} {key : MemberKey} (holds : key.encloses owner = true) :
    (owner.isNumber || decide (owner.precedence < Precedence.call)) = true := by
  cases key with
  | name id => exact holds
  | computed key =>
      rw [show decide (owner.precedence < Precedence.call) = true from holds, Bool.or_true]

end MemberKey

theorem Expr.shown_member (loc : Span) (owner : Expr) (key : MemberKey) (optional : Bool) :
    (Expr.member loc owner key optional).shown =
      .member {} (owner.shown.grouped (key.encloses owner)) key.shown optional := by
  cases key <;> rfl

namespace Pattern

theorem not_rest_shown {pattern : Pattern}
    (notRest : ∀ loc argument, pattern ≠ .rest loc argument) :
    ∀ loc argument, pattern.shown ≠ .rest loc argument := by
  cases pattern with
  | rest loc argument => exact absurd rfl (notRest loc argument)
  | _ => exact nofun

end Pattern

namespace Eval

open Mirrors

theorem isUnboundName_shown (heap : Heap) (scope : Scope) : ∀ expr : Expr,
    isUnboundName heap scope expr.shown = isUnboundName heap scope expr
  | .paren _ inner => isUnboundName_shown heap scope inner
  | .number literal => literal.flag_shown (fun _ => rfl) (fun _ _ _ => rfl) fun _ _ _ _ => rfl
  | .update _ _ fixity _ => by cases fixity <;> rfl
  | .binary _ _ _ _ => by
      rw [Expr.shown]
      split <;> rfl
  | .member _ _ key _ => by cases key <;> rfl
  | .null _ | .boolean _ _ | .string _ | .regExp _ _ _ | .template _ _ _ | .ident _ | .this _
  | .array _ _ | .object _ _ | .arrow _ _ _ | .unary _ _ _ | .logical _ _ _ _
  | .conditional _ _ _ _ | .assign _ _ _ _ | .destructure _ _ _ _ | .sequence _ _ | .call _ _ _ _
  | .new _ _ _ | .tagged _ _ _ _ _ | .spread _ _ => rfl

theorem isUnboundName_grouped (heap : Heap) (scope : Scope) (expr : Expr) (needed : Bool) :
    isUnboundName heap scope (expr.shown.grouped needed) = isUnboundName heap scope expr := by
  rw [← isUnboundName_shown heap scope expr]
  cases needed <;> rfl

theorem evalReference_other {context : Context} {path : Path} {expr : Expr}
    (other : expr.isPlace = false) :
    evalReference context path expr = raise .invalidAssignmentTarget expr.loc.start := by
  cases expr with
  | paren | ident | member => cases other
  | _ => rw [evalReference] <;> nofun

theorem evalReference_grouped {context : Context} {left : Eval Reference} {expr : Expr}
    (follows : ∀ path, Follows Reference.Akin left (evalReference context path expr))
    (needed : Bool) (path : Path) :
    Follows Reference.Akin left (evalReference context path (expr.grouped needed)) := by
  cases needed with
  | false => exact follows path
  | true =>
      change Follows _ _ (evalReference context path (.paren {} expr))
      rw [evalReference]
      exact follows (.inner :: path)

/-- What follows the object of a member. -/
private theorem memberLink_shown (position position' : Position) (optional : Bool)
    (owner : Outcome) {left right : Eval String} (key : Mirrors left right) :
    Mirrors
      (match owner with
      | none => return none
      | some (_, object) =>
        if optional && object.isNullish then return none
        else do
          let name ← left
          return some (object, ← readProperty position object name))
      (match owner with
      | none => return none
      | some (_, object) =>
        if optional && object.isNullish then return none
        else do
          let name ← right
          return some (object, ← readProperty position' object name)) := by
  rcases owner with _ | ⟨_, object⟩
  · exact pure _
  · dsimp only
    split
    · exact pure _
    · exact Mirrors.bind key fun _ =>
        Mirrors.bind (Mirrors.readProperty _ _ _ _) fun _ => pure _

/-- What follows the callee of a call. -/
private theorem callLink_shown {context : Context} (indifferent : context.Indifferent)
    (tree : Nat) (position position' : Position) (callee callee' : Expr) (optional : Bool)
    (outcome : Outcome) {left right : Eval (List Value)} (args : Mirrors left right) :
    Mirrors
      (match outcome with
      | none => return none
      | some (this, function) =>
        if optional && function.isNullish then return none
        else do
          let args ← left
          return plain (← callValue context position callee function this args))
      (match outcome with
      | none => return none
      | some (this, function) =>
        if optional && function.isNullish then return none
        else do
          let args ← right
          return plain
            (← callValue (context.movedTo tree) position' callee' function this args)) := by
  rcases outcome with _ | ⟨this, function⟩
  · exact pure _
  · dsimp only
    split
    · exact pure _
    · exact Mirrors.bind args fun _ =>
        (Mirrors.callValue indifferent _ _ _ _ _ _ _ tree).plainly

mutual

/-- Every expression, for whatever it is evaluated. -/
theorem eval_shown (context : Context) (indifferent : context.Indifferent) (tree : Nat)
    (use : Use) (path path' : Path) :
    ∀ expr : Expr, Mirrors (eval context use path expr)
      (eval (context.movedTo tree) use path' expr.shown)
  | .null _ | .boolean _ _ | .string _ => by
      rw [Expr.shown, eval, eval]
      exact pure _
  | .number literal => by
      rw [Expr.shown, eval_number]
      exact @eval_shown_number (context.movedTo tree) indifferent.unused use path' literal
  | .regExp _ pattern flags => by
      rw [Expr.shown, eval, eval]
      exact Mirrors.bind (allocateSame (fun _ => rfl) fun _ => rfl) fun _ => pure _
  | .template _ quasis holes => by
      rw [Expr.shown, eval, eval]
      apply plainly
      apply remembered indifferent.unused
      exact Mirrors.bind (evalTemplate_shown context indifferent tree path path' 0 quasis holes)
        fun _ => pure _
  | .ident id => by
      rw [Expr.shown, eval, eval]
      exact (Mirrors.readName context id.name id.loc {} tree).plainly
  | .this _ => by
      rw [Expr.shown, eval, eval]
      exact Mirrors.bind (Mirrors.inspect fun _ => rfl) fun _ => pure _
  | .array _ elements => by
      rw [Expr.shown, eval, eval]
      apply Mirrors.bind (evalElements_shown context indifferent tree path path' 0 elements)
      exact fun _ => (Mirrors.newArray _).plainly
  | .object _ properties => by
      rw [Expr.shown, eval, eval]
      apply Mirrors.bind (evalProperties_shown context indifferent tree path path' 0 {} properties)
      exact fun _ => (Mirrors.newObject _).plainly
  | .paren loc inner => by
      have whole := eval_shown context indifferent tree .value (.inner :: path) (.inner :: path')
        inner
      have callee := eval_shown context indifferent tree .callee (.inner :: path)
        (.inner :: path') inner
      rw [Expr.shown]
      by_cases member : use = .callee ∧ inner.kind = .memberExpression
      · obtain ⟨rfl, isMember⟩ := member
        cases inner with
        | member =>
            rw [Expr.shown_member] at callee ⊢
            rw [eval_paren_callee, eval_paren_callee]
            exact Mirrors.bind callee fun _ => pure _
        | _ => cases isMember
      · have notMember : use = .callee → inner.kind ≠ .memberExpression :=
          fun isCallee isMember => member ⟨isCallee, isMember⟩
        have notMember' : use = .callee → inner.shown.kind ≠ .memberExpression := by
          rwa [Expr.isMember_shown]
        rw [eval_paren _ _ _ _ _ notMember, eval_paren _ _ _ _ _ notMember']
        exact whole.valueOf.plainly
  | .arrow _ params body => by
      rw [Expr.shown, eval, eval]
      exact (Mirrors.createFunction context path path' params body tree).plainly
  | .unary _ op argument => by
      have operand := fun path' => eval_shown context indifferent tree .value (.inner :: path)
        path' argument
      rw [Expr.shown, eval, eval]
      apply plainly
      apply remembered indifferent.unused
      apply Follows.bind Mirrors.heap
      intro left right akin
      have unbound : isUnboundName left context.scope argument =
          isUnboundName right context.scope argument :=
        akin.same (isUnboundName · context.scope argument) fun _ => rfl
      rw [Context.movedTo_scope, isUnboundName_grouped, unbound]
      split
      · exact pure _
      · exact Mirrors.bind (valueOf_grouped operand _ _) fun value =>
          Mirrors.inspect fun heap => heap.unary_seen _ op value
  | .update loc op fixity argument => by
      have target := fun path' => evalReference_shown context indifferent tree (.inner :: path)
        path' argument
      -- Whether the text needs parentheses around the target makes no difference.
      have update : ∀ needed, Mirrors (eval context use path (.update loc op fixity argument))
          (eval (context.movedTo tree) use path'
            (.update {} op fixity (argument.shown.grouped needed))) := by
        intro needed
        rw [eval, eval]
        apply Follows.bind (evalReference_grouped target needed _)
        intro reference reference' akin
        apply Follows.after (Mirrors.readReference context akin tree)
        intro old
        apply Follows.after (Mirrors.inspect fun heap => heap.toNumber_seen _ old)
        intro before
        exact Follows.after (Mirrors.writeReference context akin _ tree) fun _ => pure _
      cases fixity with
      | before => exact update _
      | after => exact update _
  | .binary loc op left right => by
      have first := fun path' => eval_shown context indifferent tree .value (.left :: path) path'
        left
      have second := fun path' => eval_shown context indifferent tree .value (.right :: path) path'
        right
      -- A power and the other operators need parentheses in different places.
      have binary : ∀ needed needed', Mirrors (eval context use path (.binary loc op left right))
          (eval (context.movedTo tree) use path'
            (.binary {} op (left.shown.grouped needed) (right.shown.grouped needed'))) := by
        intro needed needed'
        rw [eval, eval]
        apply plainly
        apply remembered indifferent.unused
        exact Mirrors.bind (valueOf_grouped first _ _) fun _ =>
          Mirrors.bind (valueOf_grouped second _ _) fun _ => Mirrors.applyBinary _ _ _ _ _
      rw [Expr.shown]
      split
      · exact binary _ _
      · exact binary _ _
  | .logical _ op left right => by
      have first := fun path' => eval_shown context indifferent tree .value (.left :: path) path'
        left
      have second := fun path' => eval_shown context indifferent tree .value (.right :: path) path'
        right
      rw [Expr.shown, eval, eval]
      apply plainly
      apply remembered indifferent.unused
      apply Mirrors.bind (valueOf_grouped first _ _)
      intro value
      split
      · exact pure _
      · exact valueOf_grouped second _ _
  | .conditional _ test consequent alternate => by
      have first := fun path' => eval_shown context indifferent tree .value (.test :: path) path'
        test
      have second := fun path' => eval_shown context indifferent tree .value (.consequent :: path)
        path' consequent
      have third := fun path' => eval_shown context indifferent tree .value (.alternate :: path)
        path' alternate
      rw [Expr.shown, eval, eval]
      apply plainly
      apply remembered indifferent.unused
      apply Mirrors.bind (valueOf_grouped first _ _)
      intro value
      split
      · exact valueOf_grouped second _ _
      · exact valueOf_grouped third _ _
  | .assign loc op target value => by
      have first := fun path' => evalReference_shown context indifferent tree (.target :: path)
        path' target
      have second := fun path' => eval_shown context indifferent tree .value (.value :: path)
        path' value
      have write : ∀ {reference reference' : Reference}, reference.Akin reference' → ∀ value,
          Mirrors (do writeReference context reference value; return plain value)
            (do writeReference (context.movedTo tree) reference' value; return plain value) :=
        fun akin value =>
          Mirrors.bind (Mirrors.writeReference context akin value tree) fun _ => pure _
      rw [Expr.shown, eval, eval]
      apply Follows.bind (evalReference_grouped first _ _)
      intro reference reference' akin
      cases op with
      | plain => exact Mirrors.bind (valueOf_grouped second _ _) (write akin)
      | logical op =>
          apply Mirrors.bind (Mirrors.readReference context akin tree)
          intro current
          split
          · exact pure _
          · exact Mirrors.bind (valueOf_grouped second _ _) (write akin)
      | arithmetic op =>
          apply Mirrors.bind (Mirrors.readReference context akin tree)
          intro current
          apply Mirrors.bind (valueOf_grouped second _ _)
          intro right
          exact Mirrors.bind (Mirrors.applyBinary _ _ _ _ _) (write akin)
  | .destructure _ _ pattern value => by
      have first := fun path' => eval_shown context indifferent tree .value (.value :: path)
        path' value
      rw [Expr.shown, eval, eval]
      apply Mirrors.bind (valueOf_grouped first _ _)
      intro value
      apply Mirrors.bind (bind_shown context indifferent tree (.pattern :: path)
        (.pattern :: path') {} value pattern)
      intro bindings
      exact Mirrors.bind (setVariables bindings (·.assign context.scope) fun _ _ _ => rfl)
        fun _ => pure _
  | .sequence _ items => by
      rw [Expr.shown, eval, eval]
      exact (evalSequence_shown context indifferent tree path path' 0 .undefined items).plainly
  | .member loc owner key optional => by
      have first := fun use path' => eval_shown context indifferent tree use (.object :: path)
        path' owner
      have second := evalMemberKey_shown context indifferent tree (.key :: path) (.key :: path')
        key
      rw [Expr.shown_member]
      have loose := @MemberKey.loose_of_encloses owner key
      have link := Mirrors.bind (eval_grouped first loose .link (.object :: path'))
        fun outcome => memberLink_shown loc.start (Span.start {}) optional outcome second
      cases use with
      | value =>
          rw [eval, eval]
          exact (remembered indifferent.unused link.valueOf).plainly
      | link =>
          rw [eval, eval]
          exact Mirrors.bind link fun _ => pure _
      | callee =>
          rw [eval, eval]
          exact link
  | .call loc callee args optional => by
      have first := fun use path' => eval_shown context indifferent tree use (.callee :: path)
        path' callee
      have second := evalArguments_shown context indifferent tree path path' 0 args
      have loose : decide (callee.precedence < Precedence.call) = true →
          (callee.isNumber || decide (callee.precedence < Precedence.call)) = true :=
        fun weak => by rw [weak, Bool.or_true]
      have link := Mirrors.bind (eval_grouped first loose .callee (.callee :: path')) fun outcome =>
        callLink_shown indifferent tree loc.start (Span.start {}) callee
          (callee.shown.grouped (callee.precedence < Precedence.call)) optional outcome second
      rw [Expr.shown]
      cases use with
      | value =>
          rw [eval, eval]
          exact (remembered indifferent.unused link.valueOf).plainly
      | link =>
          rw [eval, eval]
          · exact link
          · exact nofun
          · exact nofun
      | callee =>
          rw [eval, eval]
          · exact link
          · exact nofun
          · exact nofun
  | .new loc callee args => by
      have first := fun path' => eval_shown context indifferent tree .value (.callee :: path)
        path' callee
      have second := evalArguments_shown context indifferent tree path path' 0 args
      rw [Expr.shown, eval, eval]
      apply plainly
      apply remembered indifferent.unused
      exact Mirrors.bind (valueOf_grouped first _ _) fun function =>
        Mirrors.bind second fun args =>
          Mirrors.constructValue indifferent _ _ _ _ function args tree
  | .tagged loc tag _ quasis holes => by
      have first := fun use path' => eval_shown context indifferent tree use (.tag :: path) path'
        tag
      have second := evalHoles_shown context indifferent tree path path' 0 holes
      rw [Expr.shown, eval, eval]
      apply plainly
      apply remembered indifferent.unused
      apply Follows.bind (eval_tag first indifferent.unused)
      intro outcome outcome' same
      rw [show outcome.getD (.undefined, .undefined) = outcome'.getD (.undefined, .undefined)
        from same]
      apply Mirrors.bind (Mirrors.templateStrings quasis)
      intro strings
      exact Mirrors.bind second fun values =>
        Mirrors.callValue indifferent _ _ _ _ _ _ _ tree
  | .spread loc _ => by
      rw [Expr.shown, eval, eval]
      exact Mirrors.raise _ _ _

theorem evalReference_shown (context : Context) (indifferent : context.Indifferent) (tree : Nat)
    (path path' : Path) :
    ∀ expr : Expr, Follows Reference.Akin (evalReference context path expr)
      (evalReference (context.movedTo tree) path' expr.shown)
  | .paren _ inner => by
      rw [Expr.shown, evalReference, evalReference]
      exact evalReference_shown context indifferent tree (.inner :: path) (.inner :: path') inner
  | .ident id => by
      rw [Expr.shown, evalReference, evalReference]
      exact Follows.pure (.name id.loc {} id.name)
  | .member loc owner key _ => by
      have first := fun path' => eval_shown context indifferent tree .value (.object :: path)
        path' owner
      have second := evalMemberKey_shown context indifferent tree (.key :: path) (.key :: path')
        key
      rw [Expr.shown_member, evalReference, evalReference]
      exact Follows.after (valueOf_grouped first _ _) fun _ => Follows.after second fun _ =>
        Follows.pure (.property _ _ _ _)
  | .null _ | .boolean _ _ | .number _ | .string _ | .regExp _ _ _ | .template _ _ _ | .this _
  | .array _ _ | .object _ _ | .arrow _ _ _ | .unary _ _ _ | .update _ _ _ _ | .binary _ _ _ _
  | .logical _ _ _ _ | .conditional _ _ _ _ | .assign _ _ _ _ | .destructure _ _ _ _
  | .sequence _ _ | .call _ _ _ _ | .new _ _ _ | .tagged _ _ _ _ _ | .spread _ _ => by
      rw [evalReference_other rfl, evalReference_other (by rw [Expr.isPlace_shown]; rfl)]
      exact Follows.raise rfl _ _

theorem evalMemberKey_shown (context : Context) (indifferent : context.Indifferent) (tree : Nat)
    (path path' : Path) :
    ∀ key : MemberKey, Mirrors (evalMemberKey context path key)
      (evalMemberKey (context.movedTo tree) path' key.shown)
  | .name _ => by
      rw [MemberKey.shown, evalMemberKey, evalMemberKey]
      exact pure _
  | .computed key => by
      rw [MemberKey.shown, evalMemberKey, evalMemberKey]
      exact Mirrors.bind (eval_shown context indifferent tree .value path path' key).valueOf
        fun value => Mirrors.inspect fun heap => heap.toPropertyKey_seen _ value

theorem evalPropertyKey_shown (context : Context) (indifferent : context.Indifferent)
    (tree : Nat) (path path' : Path) :
    ∀ key : PropertyKey, Mirrors (evalPropertyKey context path key)
      (evalPropertyKey (context.movedTo tree) path' key.shown)
  | .name _ | .string _ | .number _ => by
      rw [PropertyKey.shown, evalPropertyKey, evalPropertyKey]
      exact pure _
  | .computed key => by
      have first := fun path' => eval_shown context indifferent tree .value path path' key
      rw [PropertyKey.shown, evalPropertyKey, evalPropertyKey]
      exact Mirrors.bind (valueOf_grouped first _ _) fun value =>
        Mirrors.inspect fun heap => heap.toPropertyKey_seen _ value

theorem evalTemplate_shown (context : Context) (indifferent : context.Indifferent) (tree : Nat)
    (path path' : Path) (index : Nat) :
    ∀ (quasis : List Quasi) (holes : List Expr),
      Mirrors (evalTemplate context path index quasis holes)
        (evalTemplate (context.movedTo tree) path' index (quasis.map Quasi.erase)
          (shownHoles holes))
  | [], _ => by
      rw [List.map_nil, evalTemplate, evalTemplate]
      exact pure _
  | quasi :: quasis, [] => by
      have cooked : (quasi.erase :: quasis.map Quasi.erase).map (·.cooked) =
          (quasi :: quasis).map (·.cooked) := by
        rw [List.map_cons, List.map_cons, List.map_map]
        rfl
      rw [List.map_cons, shownHoles, evalTemplate, evalTemplate, cooked]
      exact pure _
  | quasi :: quasis, hole :: holes => by
      have first := eval_shown context indifferent tree .value (.item index :: path)
        (.item index :: path') hole
      rw [List.map_cons, shownHoles, evalTemplate, evalTemplate]
      apply Mirrors.bind first.valueOf
      intro value
      apply Mirrors.bind (Mirrors.inspect fun heap => heap.toText_seen _ value)
      intro text
      exact Mirrors.bind (evalTemplate_shown context indifferent tree path path' (index + 1)
        quasis holes) fun _ => pure _

theorem evalHoles_shown (context : Context) (indifferent : context.Indifferent) (tree : Nat)
    (path path' : Path) (index : Nat) :
    ∀ holes : List Expr, Mirrors (evalHoles context path index holes)
      (evalHoles (context.movedTo tree) path' index (shownHoles holes))
  | [] => by
      rw [shownHoles, evalHoles, evalHoles]
      exact pure _
  | hole :: holes => by
      have first := eval_shown context indifferent tree .value (.item index :: path)
        (.item index :: path') hole
      rw [shownHoles, evalHoles, evalHoles]
      apply Mirrors.bind first.valueOf
      intro value
      exact Mirrors.bind (evalHoles_shown context indifferent tree path path' (index + 1) holes)
        fun _ => pure _

theorem evalSequence_shown (context : Context) (indifferent : context.Indifferent) (tree : Nat)
    (path path' : Path) (index : Nat) (last : Value) :
    ∀ items : List Expr, Mirrors (evalSequence context path index last items)
      (evalSequence (context.movedTo tree) path' index last (shownItems items))
  | [] => by
      rw [shownItems, evalSequence, evalSequence]
      exact pure _
  | item :: items => by
      have first := fun path' => eval_shown context indifferent tree .value (.item index :: path)
        path' item
      rw [shownItems, evalSequence, evalSequence]
      exact Mirrors.bind (valueOf_grouped first _ _) fun value =>
        evalSequence_shown context indifferent tree path path' (index + 1) value items

theorem evalArguments_shown (context : Context) (indifferent : context.Indifferent) (tree : Nat)
    (path path' : Path) (index : Nat) :
    ∀ args : List Expr, Mirrors (evalArguments context path index args)
      (evalArguments (context.movedTo tree) path' index (shownItems args))
  | [] => by
      rw [shownItems, evalArguments, evalArguments]
      exact pure _
  | argument :: args => by
      have first := fun path' => eval_shown context indifferent tree .value (.item index :: path)
        path' argument
      have second := evalArguments_shown context indifferent tree path path' (index + 1) args
      cases argument with
      | spread loc inner =>
          have spread := fun path' => eval_shown context indifferent tree .value
            (.inner :: .item index :: path) path' inner
          rw [shownItems, Expr.shown_spread_item, evalArguments, evalArguments]
          exact Mirrors.bind (valueOf_grouped spread _ _) fun _ =>
            Mirrors.bind (Mirrors.spreadValues _ _ _) fun _ =>
              Mirrors.bind second fun _ => pure _
      | _ =>
          rw [shownItems, evalArguments_cons _ _ _ _ _ (by simp),
            evalArguments_cons _ _ _ _ _ (Expr.not_spread_grouped (by simp) _)]
          exact Mirrors.bind (valueOf_grouped first _ _) fun _ =>
            Mirrors.bind second fun _ => pure _

theorem evalElements_shown (context : Context) (indifferent : context.Indifferent) (tree : Nat)
    (path path' : Path) (index : Nat) :
    ∀ elements : List (Option Expr), Mirrors (evalElements context path index elements)
      (evalElements (context.movedTo tree) path' index (shownElements elements))
  | [] => by
      rw [shownElements, evalElements, evalElements]
      exact pure _
  | none :: elements => by
      rw [shownElements, evalElements, evalElements]
      exact Mirrors.bind (evalElements_shown context indifferent tree path path' (index + 1)
        elements) fun _ => pure _
  | some element :: elements => by
      have first := fun path' => eval_shown context indifferent tree .value (.item index :: path)
        path' element
      have second := evalElements_shown context indifferent tree path path' (index + 1) elements
      cases element with
      | spread loc inner =>
          have spread := fun path' => eval_shown context indifferent tree .value
            (.inner :: .item index :: path) path' inner
          rw [shownElements, Expr.shown_spread_item, evalElements, evalElements]
          exact Mirrors.bind (valueOf_grouped spread _ _) fun _ =>
            Mirrors.bind (Mirrors.spreadValues _ _ _) fun _ =>
              Mirrors.bind second fun _ => pure _
      | _ =>
          rw [shownElements, evalElements_some _ _ _ _ _ (by simp),
            evalElements_some _ _ _ _ _ (Expr.not_spread_grouped (by simp) _)]
          exact Mirrors.bind (valueOf_grouped first _ _) fun _ =>
            Mirrors.bind second fun _ => pure _

theorem evalProperties_shown (context : Context) (indifferent : context.Indifferent) (tree : Nat)
    (path path' : Path) (index : Nat) (record : Record) :
    ∀ properties : List Property, Mirrors (evalProperties context path index record properties)
      (evalProperties (context.movedTo tree) path' index record (shownProperties properties))
  | [] => by
      rw [shownProperties, evalProperties, evalProperties]
      exact pure _
  | .field _ key value _ :: properties => by
      have first := evalPropertyKey_shown context indifferent tree (.key :: .item index :: path)
        (.key :: .item index :: path') key
      have second := fun path' => eval_shown context indifferent tree .value
        (.value :: .item index :: path) path' value
      rw [shownProperties, evalProperties, evalProperties]
      exact Mirrors.bind first fun name => Mirrors.bind (valueOf_grouped second _ _) fun value =>
        evalProperties_shown context indifferent tree path path' (index + 1) _ properties
  | .spread _ argument :: properties => by
      have first := fun path' => eval_shown context indifferent tree .value
        (.inner :: .item index :: path) path' argument
      rw [shownProperties, evalProperties, evalProperties]
      apply Mirrors.bind (valueOf_grouped first _ _)
      intro value
      apply Mirrors.bind (Mirrors.inspect fun heap => heap.ownEntries_seen _ value)
      exact fun _ =>
        evalProperties_shown context indifferent tree path path' (index + 1) _ properties

theorem bind_shown (context : Context) (indifferent : context.Indifferent) (tree : Nat)
    (path path' : Path) (bindings : Record) (value : Value) :
    ∀ pattern : Pattern, Mirrors (bind context path bindings value pattern)
      (bind (context.movedTo tree) path' bindings value pattern.shown)
  | .ident id => by
      rw [Pattern.shown, bind, bind]
      exact pure _
  | .rest _ argument => by
      rw [Pattern.shown, bind, bind]
      exact bind_shown context indifferent tree (.inner :: path) (.inner :: path') bindings value
        argument
  | .withDefault _ target fallback => by
      have first := fun scope path' => eval_shown { context with scope }
        (indifferent.withScope scope) tree .value (.value :: path) path' fallback
      have second := fun value => bind_shown context indifferent tree (.target :: path)
        (.target :: path') bindings value target
      rw [Pattern.shown, bind, bind]
      split
      · apply inPattern bindings
        exact fun scope => Mirrors.bind (valueOf_grouped (first scope) _ _) second
      · exact second value
  | .array loc elements => by
      rw [Pattern.shown, bind, bind]
      split
      · exact Mirrors.nullishTarget _ _ _
      · exact Mirrors.bind (Mirrors.spreadValues _ _ _) fun items =>
          bindElements_shown context indifferent tree path path' 0 bindings items elements
  | .object loc properties => by
      rw [Pattern.shown, bind, bind]
      split
      · exact Mirrors.nullishTarget _ _ _
      · exact bindProperties_shown context indifferent tree path path' 0 bindings value []
          properties

theorem bindElements_shown (context : Context) (indifferent : context.Indifferent) (tree : Nat)
    (path path' : Path) (index : Nat) (bindings : Record) (items : List Value) :
    ∀ elements : List (Option Pattern),
      Mirrors (bindElements context path index bindings items elements)
        (bindElements (context.movedTo tree) path' index bindings items
          (shownPatternElements elements))
  | [] => by
      rw [shownPatternElements, bindElements, bindElements]
      exact pure _
  | none :: elements => by
      rw [shownPatternElements, bindElements, bindElements]
      exact bindElements_shown context indifferent tree path path' (index + 1) bindings
        items.tail elements
  | some element :: elements => by
      have first := bind_shown context indifferent tree (.item index :: path)
        (.item index :: path') bindings (items.head?.getD .undefined) element
      have second := fun bindings => bindElements_shown context indifferent tree path path'
        (index + 1) bindings items.tail elements
      rw [shownPatternElements]
      cases element with
      | rest _ argument =>
          have rest := fun array => bind_shown context indifferent tree
            (.inner :: .item index :: path) (.inner :: .item index :: path') bindings array argument
          rw [Pattern.shown, bindElements, bindElements]
          exact Mirrors.bind (Mirrors.newArray _) fun array => Mirrors.bind (rest array) second
      | _ =>
          rw [bindElements_some _ _ _ _ _ _ _ (by simp),
            bindElements_some _ _ _ _ _ _ _ (Pattern.not_rest_shown (by simp))]
          exact Mirrors.bind first second

theorem bindProperties_shown (context : Context) (indifferent : context.Indifferent) (tree : Nat)
    (path path' : Path) (index : Nat) (bindings : Record) (value : Value) (taken : List String) :
    ∀ properties : List PatternProperty,
      Mirrors (bindProperties context path index bindings value taken properties)
        (bindProperties (context.movedTo tree) path' index bindings value taken
          (shownPatternProperties properties))
  | [] => by
      rw [shownPatternProperties, bindProperties, bindProperties]
      exact pure _
  | .field loc key pattern _ :: properties => by
      have first := evalPatternKey_shown context indifferent tree (.key :: .item index :: path)
        (.key :: .item index :: path') bindings key
      have second := fun item => bind_shown context indifferent tree
        (.value :: .item index :: path) (.value :: .item index :: path') bindings item pattern
      rw [shownPatternProperties, bindProperties, bindProperties]
      apply Mirrors.bind first
      intro name
      apply Mirrors.bind (Mirrors.readProperty _ _ _ _)
      intro item
      apply Mirrors.bind (second item)
      exact fun bindings => bindProperties_shown context indifferent tree path path' (index + 1)
        bindings value (name :: taken) properties
  | .rest _ argument :: properties => by
      have first := fun others => bind_shown context indifferent tree
        (.inner :: .item index :: path) (.inner :: .item index :: path') bindings others argument
      rw [shownPatternProperties, bindProperties, bindProperties]
      apply Mirrors.bind (Mirrors.inspect fun heap => heap.ownEntries_seen _ value)
      intro entries
      apply Mirrors.bind (Mirrors.newObject _)
      intro others
      apply Mirrors.bind (first others)
      exact fun bindings => bindProperties_shown context indifferent tree path path' (index + 1)
        bindings value taken properties

theorem evalPatternKey_shown (context : Context) (indifferent : context.Indifferent) (tree : Nat)
    (path path' : Path) (bindings : Record) :
    ∀ key : PropertyKey, Mirrors (evalPatternKey context path bindings key)
      (evalPatternKey (context.movedTo tree) path' bindings key.shown)
  | .name _ | .string _ | .number _ => by
      rw [PropertyKey.shown, evalPatternKey, evalPatternKey]
      exact pure _
  | .computed key => by
      have first := fun scope path' => eval_shown { context with scope }
        (indifferent.withScope scope) tree .value path path' key
      rw [PropertyKey.shown, evalPatternKey, evalPatternKey]
      apply inPattern bindings
      exact fun scope => Mirrors.bind (valueOf_grouped (first scope) _ _) fun value =>
        Mirrors.inspect fun heap => heap.toPropertyKey_seen _ value

end

end Eval

end ExprScript
