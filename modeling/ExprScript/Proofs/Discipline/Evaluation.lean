import ExprScript.Proofs.Discipline.Rules
import ExprScript.Proofs.Memo.Evaluation

/-! # Evaluation obeys a discipline

Code that keeps to the permission of a discipline obeys it in every context where it may be
evaluated, provided that calls do. What it gives back is shown. The induction follows the tree.
-/

namespace ExprScript.Eval

open Discipline

variable {discipline : Discipline} {context : Context}

/-- What follows the object of a member. -/
private theorem memberLink_obeys (position : Position) (optional : Bool) {owner : Outcome}
    (shown : discipline.ShowsOutcome owner) {key : Eval String}
    (obeys : Obeys discipline key fun _ => True) :
    Obeys discipline
      (match owner with
      | none => return none
      | some (_, object) =>
        if optional && object.isNullish then return none
        else do
          let name ← key
          return some (object, ← readProperty position object name)) discipline.ShowsOutcome := by
  rcases owner with _ | ⟨_, object⟩
  · exact Obeys.pure nofun
  · dsimp only
    split
    · exact Obeys.pure nofun
    · apply Obeys.bind obeys
      intro name _
      exact Obeys.andThen (Obeys.readProperty position (shown _ _ rfl).2 name)
        fun value shownValue => showsOutcome_some (shown _ _ rfl).2 shownValue

/-- What follows the callee of a call. -/
private theorem callLink_obeys (ready : context.Abides discipline)
    (mayCall : discipline.permission.call) (position : Position) (callee : Expr) (optional : Bool)
    {outcome : Outcome} (shown : discipline.ShowsOutcome outcome) {args : Eval (List Value)}
    (evaluates : Obeys discipline args fun values => ∀ value ∈ values, discipline.Shows value) :
    Obeys discipline
      (match outcome with
      | none => return none
      | some (this, function) =>
        if optional && function.isNullish then return none
        else do
          let args ← args
          return plain (← callValue context position callee function this args))
      discipline.ShowsOutcome := by
  rcases outcome with _ | ⟨this, function⟩
  · exact Obeys.pure nofun
  · dsimp only
    split
    · exact Obeys.pure nofun
    · apply Obeys.bind evaluates
      intro values shownArgs
      exact .plain (.callValue ready mayCall position callee function (shown _ _ rfl).1 shownArgs)

mutual

theorem eval_obeys (context : Context) (ready : context.Abides discipline) (use : Use)
    (path : Path) : ∀ expr : Expr, expr.Allowed discipline.permission →
      Obeys discipline (eval context use path expr) discipline.ShowsOutcome
  | .null _, _ => by
      rw [eval]
      exact Obeys.pure (showsOutcome_plain (shows_primitive rfl))
  | .boolean _ _, _ => by
      rw [eval]
      exact Obeys.pure (showsOutcome_plain (shows_primitive rfl))
  | .number _, _ => by
      rw [eval]
      exact Obeys.pure (showsOutcome_plain (shows_primitive rfl))
  | .string _, _ => by
      rw [eval]
      exact Obeys.pure (showsOutcome_plain (shows_primitive rfl))
  | .regExp _ pattern flags, _ => by
      rw [eval]
      exact (Obeys.newRegExp _).andThen fun _ _ =>
        showsOutcome_plain (discipline.shows_plain nofun nofun)
  | .template _ quasis holes, allowed => by
      have joined := evalTemplate_obeys context ready path 0 quasis holes allowed
      rw [eval]
      apply Obeys.plain
      apply Obeys.memoized ready
      exact joined.andThen fun _ _ => shows_primitive rfl
  | .ident id, _ => by
      rw [eval]
      exact .plain (.readName ready id)
  | .this _, _ => by
      rw [eval]
      apply Obeys.inspect
      intro world holds
      exact Obeys.pure (showsOutcome_plain (shows_this holds ready.scope))
  | .array _ elements, allowed => by
      have items := evalElements_obeys context ready path 0 elements allowed
      rw [eval]
      exact items.bind fun _ shown => .plain (.newArray shown)
  | .object _ properties, allowed => by
      have record := evalProperties_obeys context ready path 0 {} properties
        showsRecord_empty allowed
      rw [eval]
      exact record.bind fun _ shown => .plain (.newObject shown)
  | .paren loc inner, allowed => by
      have whole := eval_obeys context ready .value (.inner :: path) inner allowed
      have callee := eval_obeys context ready .callee (.inner :: path) inner allowed
      by_cases member : use = .callee ∧ inner.kind = .memberExpression
      · rcases member with ⟨rfl, isMember⟩
        cases inner with
        | member =>
            rw [eval_paren_callee]
            apply Obeys.andThen callee
            intro outcome shown
            cases outcome with
            | none => exact showsOutcome_plain (shows_primitive rfl)
            | some result => exact shown
        | _ => cases isMember
      · have notMember : use = .callee → inner.kind ≠ .memberExpression :=
          fun isCallee isMember => member ⟨isCallee, isMember⟩
        rw [eval_paren _ _ _ _ _ notMember]
        exact .plain (.valueOf whole)
  | .arrow _ params body, _ => by
      rw [eval]
      exact .plain (.createFunction ready path params body)
  | .unary _ op argument, allowed => by
      have operand := eval_obeys context ready .value (.inner :: path) argument allowed
      rw [eval]
      apply Obeys.plain
      apply Obeys.memoized ready
      apply Obeys.heap
      intro world _
      split
      · exact Obeys.pure (shows_primitive rfl)
      · exact (Obeys.valueOf operand).bind fun _ _ =>
          .inspected fun _ _ => shows_primitive (Heap.primitive_unary op)
  | .update _ op fixity argument, ⟨mayWrite, allowed⟩ => by
      have target := evalReference_obeys context ready (.inner :: path) argument allowed
      rw [eval]
      apply Obeys.bind target
      intro reference shown
      apply Obeys.bind (.readReference ready shown)
      intro old _
      apply Obeys.inspect
      intro world _
      exact (Obeys.writeReference mayWrite ready shown (shows_primitive rfl)).andThen
        fun _ _ => showsOutcome_plain (shows_primitive rfl)
  | .binary loc op left right, ⟨allowed, allowed'⟩ => by
      have first := eval_obeys context ready .value (.left :: path) left allowed
      have second := eval_obeys context ready .value (.right :: path) right allowed'
      rw [eval]
      apply Obeys.plain
      apply Obeys.memoized ready
      exact first.valueOf.bind fun _ _ => second.valueOf.bind fun _ _ => .applyBinary _ op _ _
  | .logical _ op left right, ⟨allowed, allowed'⟩ => by
      have first := eval_obeys context ready .value (.left :: path) left allowed
      have second := eval_obeys context ready .value (.right :: path) right allowed'
      rw [eval]
      apply Obeys.plain
      apply Obeys.memoized ready
      apply Obeys.bind first.valueOf
      intro value shown
      split
      · exact Obeys.pure shown
      · exact second.valueOf
  | .conditional _ test consequent alternate, ⟨allowed, allowed', allowed''⟩ => by
      have first := eval_obeys context ready .value (.test :: path) test allowed
      have second := eval_obeys context ready .value (.consequent :: path) consequent allowed'
      have third := eval_obeys context ready .value (.alternate :: path) alternate allowed''
      rw [eval]
      apply Obeys.plain
      apply Obeys.memoized ready
      apply Obeys.bind first.valueOf
      intro value _
      split
      · exact second.valueOf
      · exact third.valueOf
  | .assign loc op target value, ⟨mayWrite, allowed, allowed'⟩ => by
      have first := evalReference_obeys context ready (.target :: path) target allowed
      have second := eval_obeys context ready .value (.value :: path) value allowed'
      rw [eval]
      apply Obeys.bind first
      intro reference shown
      -- What is assigned is the value of the whole expression.
      have writes : ∀ value, discipline.Shows value → Obeys discipline (do
          writeReference context reference value
          return plain value) discipline.ShowsOutcome := fun value shown' =>
        (Obeys.writeReference mayWrite ready shown shown').andThen
          fun _ _ => showsOutcome_plain shown'
      cases op with
      | plain => exact second.valueOf.bind writes
      | logical op =>
          apply Obeys.bind (.readReference ready shown)
          intro current shownCurrent
          split
          · exact Obeys.pure (showsOutcome_plain shownCurrent)
          · exact second.valueOf.bind writes
      | arithmetic op =>
          apply Obeys.bind (.readReference ready shown)
          intro current _
          apply Obeys.bind second.valueOf
          intro right _
          exact (Obeys.applyBinary _ _ current right).bind writes
  | .destructure _ _ pattern value, ⟨mayWrite, allowed, allowed'⟩ => by
      have first := eval_obeys context ready .value (.value :: path) value allowed'
      rw [eval]
      apply Obeys.bind first.valueOf
      intro value shown
      apply Obeys.bind (bind_obeys context ready (.pattern :: path) {} value pattern
        showsRecord_empty shown allowed)
      intro bindings shownBindings
      have assigns := Obeys.modifyAll (fun entry shownEntry =>
        Obeys.assign mayWrite ready entry.1 shownEntry) shownBindings
      exact assigns.andThen fun _ _ => showsOutcome_plain shown
  | .sequence _ items, allowed => by
      have last := evalSequence_obeys context ready path 0 .undefined items
        (shows_primitive rfl) allowed
      rw [eval]
      exact .plain last
  | .member loc owner key optional, ⟨allowed, allowed'⟩ => by
      have first := eval_obeys context ready .link (.object :: path) owner allowed
      have second := evalMemberKey_obeys context ready (.key :: path) key allowed'
      have link := first.bind fun outcome shown =>
        memberLink_obeys loc.start optional shown second
      cases use with
      | value =>
          rw [eval]
          exact .plain (.memoized ready path (.valueOf link))
      | link =>
          rw [eval]
          apply Obeys.andThen link
          intro outcome shown
          rcases outcome with _ | ⟨this, value⟩
          · exact nofun
          · exact showsOutcome_plain (shown _ _ rfl).2
      | callee =>
          rw [eval]
          exact link
  | .call loc callee args optional, ⟨mayCall, allowed, allowed'⟩ => by
      have first := eval_obeys context ready .callee (.callee :: path) callee allowed
      have second := evalArguments_obeys context ready path 0 args allowed'
      have link := first.bind fun outcome shown =>
        callLink_obeys ready mayCall loc.start callee optional shown second
      cases use with
      | value =>
          rw [eval]
          exact .plain (.memoized ready path (.valueOf link))
      | link =>
          rw [eval]
          · exact link
          · simp
      | callee =>
          rw [eval]
          · exact link
          · simp
  | .new loc callee args, ⟨mayCall, allowed, allowed'⟩ => by
      have first := eval_obeys context ready .value (.callee :: path) callee allowed
      have second := evalArguments_obeys context ready path 0 args allowed'
      rw [eval]
      apply Obeys.plain
      apply Obeys.memoized ready
      apply Obeys.bind first.valueOf
      intro function _
      apply Obeys.bind second
      intro values shownArgs
      exact .constructValue ready mayCall loc.start callee function shownArgs
  | .tagged loc tag _ quasis holes, ⟨mayCall, allowed, allowed'⟩ => by
      have first := eval_obeys context ready .callee (.tag :: path) tag allowed
      have second := evalHoles_obeys context ready path 0 holes allowed'
      rw [eval]
      apply Obeys.plain
      apply Obeys.memoized ready
      apply Obeys.bind first
      intro outcome shown
      have shownThis : discipline.Shows (outcome.getD (.undefined, .undefined)).1 := by
        cases outcome with
        | none => exact shows_primitive rfl
        | some result => exact (shown _ _ rfl).1
      apply Obeys.bind (.templateStrings quasis)
      intro strings shownStrings
      apply Obeys.bind second
      intro values shownValues
      exact .callValue ready mayCall loc.start tag _ shownThis
        (List.forall_mem_cons.mpr ⟨shownStrings, shownValues⟩)
  | .spread loc _, _ => by
      rw [eval]
      exact Obeys.raise _ _

theorem evalReference_obeys (context : Context) (ready : context.Abides discipline)
    (path : Path) : ∀ expr : Expr, expr.Allowed discipline.permission →
      Obeys discipline (evalReference context path expr) discipline.ShowsReference
  | .paren _ inner, allowed => by
      rw [evalReference]
      exact evalReference_obeys context ready (.inner :: path) inner allowed
  | .ident id, _ => by
      rw [evalReference]
      exact Obeys.pure trivial
  | .member loc owner key _, ⟨allowed, allowed'⟩ => by
      have first := eval_obeys context ready .value (.object :: path) owner allowed
      have second := evalMemberKey_obeys context ready (.key :: path) key allowed'
      rw [evalReference]
      exact first.valueOf.bind fun object shown => second.andThen fun _ _ => shown
  | .null _, _ | .boolean _ _, _ | .number _, _ | .string _, _ | .regExp _ _ _, _
  | .template _ _ _, _ | .this _, _ | .array _ _, _ | .object _ _, _ | .arrow _ _ _, _
  | .unary _ _ _, _ | .update _ _ _ _, _ | .binary _ _ _ _, _ | .logical _ _ _ _, _
  | .conditional _ _ _ _, _ | .assign _ _ _ _, _ | .destructure _ _ _ _, _ | .sequence _ _, _
  | .call _ _ _ _, _ | .new _ _ _, _ | .tagged _ _ _ _ _, _ | .spread _ _, _ => by
      simp only [evalReference]
      exact Obeys.raise _ _

theorem evalMemberKey_obeys (context : Context) (ready : context.Abides discipline)
    (path : Path) : ∀ key : MemberKey, key.Allowed discipline.permission →
      Obeys discipline (evalMemberKey context path key) fun _ => True
  | .name _, _ => by
      rw [evalMemberKey]
      exact Obeys.pure trivial
  | .computed key, allowed => by
      rw [evalMemberKey]
      exact (eval_obeys context ready .value path key allowed).valueOf.bind
        fun _ _ => .inspected fun _ _ => trivial

theorem evalPropertyKey_obeys (context : Context) (ready : context.Abides discipline)
    (path : Path) : ∀ key : PropertyKey, key.Allowed discipline.permission →
      Obeys discipline (evalPropertyKey context path key) fun _ => True
  | .computed key, allowed => by
      rw [evalPropertyKey]
      exact (eval_obeys context ready .value path key allowed).valueOf.bind
        fun _ _ => .inspected fun _ _ => trivial
  | .name _, _ | .string _, _ | .number _, _ => by
      rw [evalPropertyKey]
      exact Obeys.pure trivial

theorem evalTemplate_obeys (context : Context) (ready : context.Abides discipline)
    (path : Path) (index : Nat) : ∀ (quasis : List Quasi) (holes : List Expr),
      itemsAllowed discipline.permission holes →
      Obeys discipline (evalTemplate context path index quasis holes) fun _ => True
  | [], _, _ => by
      rw [evalTemplate]
      exact Obeys.pure trivial
  | quasi :: quasis, [], _ => by
      rw [evalTemplate]
      exact Obeys.pure trivial
  | quasi :: quasis, hole :: holes, ⟨allowed, later⟩ => by
      have first := eval_obeys context ready .value (.item index :: path) hole allowed
      rw [evalTemplate]
      apply Obeys.bind first.valueOf
      intro value _
      apply Obeys.inspect
      intro world _
      exact (evalTemplate_obeys context ready path (index + 1) quasis holes later).andThen
        fun _ _ => trivial

theorem evalHoles_obeys (context : Context) (ready : context.Abides discipline)
    (path : Path) (index : Nat) : ∀ holes : List Expr, itemsAllowed discipline.permission holes →
      Obeys discipline (evalHoles context path index holes)
        fun values => ∀ value ∈ values, discipline.Shows value
  | [], _ => by
      rw [evalHoles]
      exact Obeys.pure nofun
  | hole :: holes, ⟨allowed, later⟩ => by
      have first := eval_obeys context ready .value (.item index :: path) hole allowed
      rw [evalHoles]
      exact first.valueOf.bind fun _ shown =>
        (evalHoles_obeys context ready path (index + 1) holes later).andThen
          fun _ others => List.forall_mem_cons.mpr ⟨shown, others⟩

theorem evalSequence_obeys (context : Context) (ready : context.Abides discipline)
    (path : Path) (index : Nat) (last : Value) : ∀ items : List Expr, discipline.Shows last →
      itemsAllowed discipline.permission items →
      Obeys discipline (evalSequence context path index last items) discipline.Shows
  | [], shown, _ => by
      rw [evalSequence]
      exact Obeys.pure shown
  | item :: items, _, ⟨allowed, later⟩ => by
      have first := eval_obeys context ready .value (.item index :: path) item allowed
      rw [evalSequence]
      exact first.valueOf.bind fun value shown =>
        evalSequence_obeys context ready path (index + 1) value items shown later

theorem evalArguments_obeys (context : Context) (ready : context.Abides discipline)
    (path : Path) (index : Nat) : ∀ args : List Expr, itemsAllowed discipline.permission args →
      Obeys discipline (evalArguments context path index args)
        fun values => ∀ value ∈ values, discipline.Shows value
  | [], _ => by
      rw [evalArguments]
      exact Obeys.pure nofun
  | argument :: args, ⟨allowed, later⟩ => by
      have others := evalArguments_obeys context ready path (index + 1) args later
      have first := fun path => eval_obeys context ready .value path argument allowed
      cases argument with
      | spread loc inner =>
          have spread := fun path => eval_obeys context ready .value path inner allowed
          rw [evalArguments]
          apply Obeys.bind (spread _).valueOf
          intro value shownValue
          apply Obeys.bind (.spreadValues _ shownValue)
          intro values shown
          exact others.andThen fun _ shownOthers => List.forall_mem_append.mpr ⟨shown, shownOthers⟩
      | _ =>
          rw [evalArguments_cons _ _ _ _ _ (by simp)]
          exact (first _).valueOf.bind fun _ shown => others.andThen fun _ shownOthers =>
            List.forall_mem_cons.mpr ⟨shown, shownOthers⟩

theorem evalElements_obeys (context : Context) (ready : context.Abides discipline)
    (path : Path) (index : Nat) : ∀ elements : List (Option Expr),
      elementsAllowed discipline.permission elements →
      Obeys discipline (evalElements context path index elements)
        fun values => ∀ value ∈ values, discipline.Shows value
  | [], _ => by
      rw [evalElements]
      exact Obeys.pure nofun
  | none :: elements, allowed => by
      rw [evalElements]
      exact (evalElements_obeys context ready path (index + 1) elements allowed).andThen
        fun _ others => List.forall_mem_cons.mpr ⟨shows_primitive rfl, others⟩
  | some element :: elements, ⟨allowed, later⟩ => by
      have others := evalElements_obeys context ready path (index + 1) elements later
      have first := fun path => eval_obeys context ready .value path element allowed
      cases element with
      | spread loc inner =>
          have spread := fun path => eval_obeys context ready .value path inner allowed
          rw [evalElements]
          apply Obeys.bind (spread _).valueOf
          intro value shownValue
          apply Obeys.bind (.spreadValues _ shownValue)
          intro values shown
          exact others.andThen fun _ shownOthers => List.forall_mem_append.mpr ⟨shown, shownOthers⟩
      | _ =>
          rw [evalElements_some _ _ _ _ _ (by simp)]
          exact (first _).valueOf.bind fun _ shown => others.andThen fun _ shownOthers =>
            List.forall_mem_cons.mpr ⟨shown, shownOthers⟩

theorem evalProperties_obeys (context : Context) (ready : context.Abides discipline)
    (path : Path) (index : Nat) (record : Record) : ∀ properties : List Property,
      discipline.ShowsRecord record → propertiesAllowed discipline.permission properties →
      Obeys discipline (evalProperties context path index record properties) discipline.ShowsRecord
  | [], shown, _ => by
      rw [evalProperties]
      exact Obeys.pure shown
  | .field _ key value _ :: properties, shown, ⟨⟨inKey, inValue⟩, later⟩ => by
      have first := evalPropertyKey_obeys context ready (.key :: .item index :: path) key inKey
      have second := eval_obeys context ready .value (.value :: .item index :: path) value
        inValue
      rw [evalProperties]
      apply Obeys.bind first
      intro name _
      apply Obeys.bind second.valueOf
      intro value shownValue
      exact evalProperties_obeys context ready path (index + 1) _ properties
        (shown.set name shownValue) later
  | .spread _ argument :: properties, shown, ⟨allowed, later⟩ => by
      have first := eval_obeys context ready .value (.inner :: .item index :: path) argument
        allowed
      rw [evalProperties]
      apply Obeys.bind first.valueOf
      intro value shownValue
      apply Obeys.inspect
      intro world holds
      have entries : ∀ entry ∈ world.heap.ownEntries value, discipline.Shows entry.2 :=
        fun entry member => shows_shared holds shownValue (Heap.shares_ownEntries member)
      exact evalProperties_obeys context ready path (index + 1) _ properties
        (shown.setAll entries) later

theorem bind_obeys (context : Context) (ready : context.Abides discipline) (path : Path)
    (bindings : Record) (value : Value) : ∀ pattern : Pattern, discipline.ShowsRecord bindings →
      discipline.Shows value → pattern.Allowed discipline.permission →
      Obeys discipline (bind context path bindings value pattern) discipline.ShowsRecord
  | .ident id, bound, shown, _ => by
      rw [bind]
      exact Obeys.pure (bound.set id.name shown)
  | .rest _ argument, bound, shown, allowed => by
      rw [bind]
      exact bind_obeys context ready (.inner :: path) bindings value argument bound shown
        allowed
  | .withDefault _ target fallback, bound, shown, ⟨allowed, allowed'⟩ => by
      have first := fun scope (ready : Context.Abides discipline { context with scope }) =>
        eval_obeys { context with scope } ready .value (.value :: path) fallback allowed'
      have second := fun value (shown : discipline.Shows value) =>
        bind_obeys context ready (.target :: path) bindings value target bound shown allowed
      rw [bind]
      split
      · apply Obeys.inPattern ready bound
        intro scope ready'
        exact (first scope ready').valueOf.bind second
      · exact second value shown
  | .array loc elements, bound, shown, allowed => by
      rw [bind]
      split
      · exact Obeys.nullishTarget _ _
      · apply Obeys.bind (.spreadValues loc.start shown)
        intro items shownItems
        exact bindElements_obeys context ready path 0 bindings items elements bound shownItems
          allowed
  | .object loc properties, bound, shown, allowed => by
      rw [bind]
      split
      · exact Obeys.nullishTarget _ _
      · exact bindProperties_obeys context ready path 0 bindings value [] properties bound shown
          allowed

theorem bindElements_obeys (context : Context) (ready : context.Abides discipline)
    (path : Path) (index : Nat) (bindings : Record) (items : List Value) :
    ∀ elements : List (Option Pattern), discipline.ShowsRecord bindings →
      (∀ item ∈ items, discipline.Shows item) →
      patternElementsAllowed discipline.permission elements →
      Obeys discipline (bindElements context path index bindings items elements)
        discipline.ShowsRecord
  | [], bound, _, _ => by
      rw [bindElements]
      exact Obeys.pure bound
  | none :: elements, bound, shown, allowed => by
      rw [bindElements]
      exact bindElements_obeys context ready path (index + 1) bindings items.tail elements
        bound (fun item member => shown item (List.mem_of_mem_tail member)) allowed
  | some element :: elements, bound, shown, ⟨allowed, later⟩ => by
      have head : discipline.Shows (items.head?.getD .undefined) := by
        cases items with
        | nil => exact shows_primitive rfl
        | cons item items => exact shown item List.mem_cons_self
      have first := fun path value (shown : discipline.Shows value) =>
        bind_obeys context ready path bindings value element bound shown allowed
      have others := fun bindings (bound : discipline.ShowsRecord bindings) =>
        bindElements_obeys context ready path (index + 1) bindings items.tail elements bound
          (fun item member => shown item (List.mem_of_mem_tail member)) later
      cases element with
      | rest _ argument =>
          have rest := fun path value (shown : discipline.Shows value) =>
            bind_obeys context ready path bindings value argument bound shown allowed
          rw [bindElements]
          apply Obeys.bind (.newArray shown)
          intro array shownArray
          exact (rest _ array shownArray).bind others
      | _ =>
          rw [bindElements_some _ _ _ _ _ _ _ (by simp)]
          exact (first _ _ head).bind others

theorem bindProperties_obeys (context : Context) (ready : context.Abides discipline)
    (path : Path) (index : Nat) (bindings : Record) (value : Value) (taken : List String) :
    ∀ properties : List PatternProperty, discipline.ShowsRecord bindings →
      discipline.Shows value → patternPropertiesAllowed discipline.permission properties →
      Obeys discipline (bindProperties context path index bindings value taken properties)
        discipline.ShowsRecord
  | [], bound, _, _ => by
      rw [bindProperties]
      exact Obeys.pure bound
  | .field loc key pattern _ :: properties, bound, shownValue, ⟨⟨inKey, inPattern⟩, later⟩ => by
      have first := evalPatternKey_obeys context ready (.key :: .item index :: path) bindings
        key bound inKey
      have second := fun item (shown : discipline.Shows item) =>
        bind_obeys context ready (.value :: .item index :: path) bindings item pattern bound
          shown inPattern
      rw [bindProperties]
      apply Obeys.bind first
      intro name _
      apply Obeys.bind (.readProperty loc.start shownValue name)
      intro item shown
      apply Obeys.bind (second item shown)
      intro bindings bound
      exact bindProperties_obeys context ready path (index + 1) bindings value _ properties
        bound shownValue later
  | .rest _ argument :: properties, bound, shownValue, ⟨allowed, later⟩ => by
      have first := fun object (shown : discipline.Shows object) =>
        bind_obeys context ready (.inner :: .item index :: path) bindings object argument bound
          shown allowed
      rw [bindProperties]
      apply Obeys.inspect
      intro world holds
      have others : discipline.ShowsRecord (.ofEntries ((world.heap.ownEntries value).filter
          fun (key, _) => !taken.contains key)) :=
        showsRecord_empty.setAll fun entry member =>
          shows_shared holds shownValue (Heap.shares_ownEntries (List.mem_of_mem_filter member))
      apply Obeys.bind (.newObject others)
      intro object shown
      apply Obeys.bind (first object shown)
      intro bindings bound
      exact bindProperties_obeys context ready path (index + 1) bindings value taken properties
        bound shownValue later

theorem evalPatternKey_obeys (context : Context) (ready : context.Abides discipline)
    (path : Path) (bindings : Record) : ∀ key : PropertyKey, discipline.ShowsRecord bindings →
      key.Allowed discipline.permission →
      Obeys discipline (evalPatternKey context path bindings key) fun _ => True
  | .computed key, bound, allowed => by
      have first := fun scope (ready : Context.Abides discipline { context with scope }) =>
        eval_obeys { context with scope } ready .value path key allowed
      rw [evalPatternKey]
      apply Obeys.inPattern ready bound
      intro scope ready'
      exact (first scope ready').valueOf.bind fun _ _ => .inspected fun _ _ => trivial
  | .name _, _, _ | .string _, _, _ | .number _, _, _ => by
      rw [evalPatternKey]
      exact Obeys.pure trivial

end

/-! ## Parameters -/

def bindParam (context : Context) (path : Path) (index : Nat) (args : List Value) :
    Pattern → Eval Record
  | .rest _ argument => do
    bind context (.inner :: .param index :: path) {} (← newArray args) argument
  | param => bind context (.param index :: path) {} (args.head?.getD .undefined) param

theorem bindParams_cons (context : Context) (path : Path) (index : Nat) (args : List Value)
    (param : Pattern) (params : List Pattern) :
    bindParams context path index args (param :: params) = (do
      let bindings ← bindParam context path index args param
      modifyHeap fun heap => bindings.entries.foldl
        (fun heap (name, bound) => heap.define context.scope name bound) heap
      bindParams context path (index + 1) args.tail params) := by
  cases param with
  | rest loc argument =>
      rw [bindParams, bindParam]
      simp only [bind_assoc, pure_bind]
  | _ =>
      rw [bindParams, bindParam]
      · simp only [pure_bind]
      · simp
      · simp

theorem bindParam_obeys (ready : context.Abides discipline) (path : Path) (index : Nat)
    {args : List Value} (shown : ∀ argument ∈ args, discipline.Shows argument) (param : Pattern)
    (allowed : param.Allowed discipline.permission) :
    Obeys discipline (bindParam context path index args param) discipline.ShowsRecord := by
  have head : discipline.Shows (args.head?.getD .undefined) := by
    cases args with
    | nil => exact shows_primitive rfl
    | cons argument args => exact shown argument List.mem_cons_self
  cases param with
  | rest loc argument =>
      rw [bindParam]
      exact (Obeys.newArray shown).bind fun array shownArray =>
        bind_obeys context ready _ {} array argument showsRecord_empty shownArray allowed
  | _ =>
      rw [bindParam]
      · exact bind_obeys context ready _ {} _ _ showsRecord_empty head allowed
      · simp

end ExprScript.Eval
