import ExprScript.Proofs.Effect.Context
import ExprScript.Proofs.Memo.Evaluation

/-! # Evaluation complies with a policy

If the code is accepted and everything in reach is trusted, then evaluation raises
errors that the policy allows and nothing else, and what it returns is trusted. The
induction follows the tree; calls are assumed to comply.
-/

namespace ExprScript.Eval

open Complies World

variable {policy : Policy} {tree : Nat} {before : World} {context : Context}

/-- What follows the object of a member. -/
private theorem memberLink_complies {position : Position}
    (allowed : ∀ cause : Cause, cause.kind ≠ .syntaxError → policy.error { cause, position })
    (optional : Bool) {owner : Outcome} (trusted : before.TrustsOutcome policy owner)
    {key : Eval String} (complies : Complies policy tree policy.error key before fun _ _ => True) :
    Complies policy tree policy.error
      (match owner with
      | none => return none
      | some (_, object) =>
        if optional && object.isNullish then return none
        else do
          let name ← key
          return some (object, ← readProperty position object name)) before
      fun outcome after => after.TrustsOutcome policy outcome := by
  rcases owner with _ | ⟨_, object⟩
  · exact Complies.pure (trustsOutcome_none _)
  · have trustedObject := (trusted _ _ rfl).2
    dsimp only
    split
    · exact Complies.pure (trustsOutcome_none _)
    · refine complies.bind fun name middle leads _ => ?_
      have reads : Complies policy tree policy.error (readProperty position object name) middle
          fun value after => after.Trusts policy value :=
        Complies.readProperty allowed name (leads.trusts trustedObject)
      exact reads.andThen fun value after leads' trustedValue =>
        trustsOutcome_some ((leads.trans leads').trusts trustedObject) trustedValue

/-- What follows the callee of a call. -/
private theorem callLink_complies (obeys : context.Obeys policy tree before) {position : Position}
    (allowed : ∀ failure, policy.raw failure → policy.error (failure.anchoredAt position))
    (callee : Expr) (optional : Bool) {outcome : Outcome}
    (trusted : before.TrustsOutcome policy outcome) {args : Eval (List Value)}
    (complies : Complies policy tree policy.error args before fun values after =>
      ∀ value ∈ values, after.Trusts policy value) :
    Complies policy tree policy.error
      (match outcome with
      | none => return none
      | some (this, function) =>
        if optional && function.isNullish then return none
        else do
          let args ← args
          return plain (← callValue context position callee function this args)) before
      fun outcome after => after.TrustsOutcome policy outcome := by
  rcases outcome with _ | ⟨this, function⟩
  · exact Complies.pure (trustsOutcome_none _)
  · have trustedCallee := trusted _ _ rfl
    dsimp only
    split
    · exact Complies.pure (trustsOutcome_none _)
    · refine complies.bind fun values middle leads trustedArgs => ?_
      exact (Complies.callValue allowed (obeys.leads leads) callee
        (leads.trusts trustedCallee.2) (leads.trusts trustedCallee.1) trustedArgs).plain

mutual

theorem eval_complies (context : Context) (use : Use) (path : Path) (before : World)
    (obeys : context.Obeys policy tree before) :
    ∀ expr : Expr, policy.Accepts expr →
      Complies policy tree policy.error (eval context use path expr) before
        fun outcome after => after.TrustsOutcome policy outcome
  | .null _, _ => by
      rw [eval]
      exact Complies.pure (trustsOutcome_plain (Heap.trusted_primitive rfl))
  | .boolean _ _, _ => by
      rw [eval]
      exact Complies.pure (trustsOutcome_plain (Heap.trusted_primitive rfl))
  | .number _, _ => by
      rw [eval]
      exact Complies.pure (trustsOutcome_plain (Heap.trusted_primitive rfl))
  | .string _, _ => by
      rw [eval]
      exact Complies.pure (trustsOutcome_plain (Heap.trusted_primitive rfl))
  | .regExp _ pattern flags, _ => by
      rw [eval]
      exact ⟨.of_heap (.single (.newRegExp _)) rfl, trustsOutcome_plain (Heap.trusted_regExp _)⟩
  | .template _ quasis holes, accepts => by
      have joined := evalTemplate_complies context path before obeys 0 quasis holes
        accepts.template
      rw [eval]
      refine (Complies.memoized obeys path ?_).plain
      exact joined.andThen fun _ _ _ _ => Heap.trusted_primitive rfl
  | .ident id, accepts => by
      rw [eval]
      exact (Complies.readName obeys fun _ notSyntax => accepts.raised notSyntax).plain
  | .this _, _ => by
      rw [eval]
      refine Complies.inspect (Complies.pure (trustsOutcome_plain ?_))
      unfold Heap.thisValue Heap.lookup
      cases found : before.heap.lookup? context.scope Scope.thisName with
      | none => exact Heap.trusted_primitive rfl
      | some value => exact Heap.trusted_lookup? obeys.frames found
  | .array _ elements, accepts => by
      have items := evalElements_complies context path before obeys 0 elements accepts.array
      rw [eval]
      exact items.bind fun _ _ _ trusted => (Complies.newArray trusted).plain
  | .object _ properties, accepts => by
      have record := evalProperties_complies context path before obeys 0 {} properties
        (trustsRecord_empty _) accepts.object
      rw [eval]
      exact record.bind fun _ _ _ trusted => (Complies.newObject trusted).plain
  | .paren loc inner, accepts => by
      have whole := eval_complies context .value (.inner :: path) before obeys inner accepts.paren
      have callee := eval_complies context .callee (.inner :: path) before obeys inner accepts.paren
      by_cases member : use = .callee ∧ inner.kind = .memberExpression
      · rcases member with ⟨rfl, isMember⟩
        cases inner with
        | member =>
            rw [eval_paren_callee]
            refine callee.andThen fun outcome _ _ trusted => ?_
            cases outcome with
            | none => exact trustsOutcome_plain (Heap.trusted_primitive rfl)
            | some result => exact trusted
        | _ => cases isMember
      · have notMember : use = .callee → inner.kind ≠ .memberExpression :=
          fun isCallee isMember => member ⟨isCallee, isMember⟩
        rw [eval_paren _ _ _ _ _ notMember]
        exact whole.valueOf.plain
  | .arrow _ params body, accepts => by
      rw [eval]
      exact (Complies.createFunction obeys path accepts.arrow).plain
  | .unary _ op argument, accepts => by
      have operand := eval_complies context .value (.inner :: path) before obeys argument
        accepts.unary
      rw [eval]
      refine (Complies.memoized obeys path (Complies.heap ?_)).plain
      split
      · exact Complies.pure (Heap.trusted_primitive rfl)
      · exact operand.valueOf.bind fun _ _ _ _ => Complies.inspected (Heap.trusted_unary _ _ op)
  | .update _ op fixity argument, accepts => by
      have target := evalReference_complies context (.inner :: path) before obeys argument
        accepts.update.1 accepts.update.2
      rw [eval]
      refine target.bind fun reference middle leads trusted => ?_
      refine (Complies.readReference (obeys.leads leads) trusted).bind fun _ middle' leads' _ => ?_
      refine Complies.inspect ?_
      refine (Complies.writeReference context (leads'.trustsReference trusted)
        (Heap.trusted_primitive rfl)).andThen fun _ _ _ _ => ?_
      exact trustsOutcome_plain (Heap.trusted_primitive rfl)
  | .binary loc op left right, accepts => by
      have first := eval_complies context .value (.left :: path) before obeys left
        accepts.binary.1
      have second := fun middle (leads : before.Leads policy tree middle) =>
        eval_complies context .value (.right :: path) middle (obeys.leads leads) right
          accepts.binary.2
      rw [eval]
      refine (Complies.memoized obeys path ?_).plain
      refine first.valueOf.bind fun _ middle leads _ => ?_
      refine (second middle leads).valueOf.bind fun _ _ _ _ => ?_
      exact Complies.applyBinary (fun _ notSyntax => accepts.raised notSyntax) op _ _
  | .logical _ op left right, accepts => by
      have first := eval_complies context .value (.left :: path) before obeys left
        accepts.logical.1
      have second := fun middle (leads : before.Leads policy tree middle) =>
        eval_complies context .value (.right :: path) middle (obeys.leads leads) right
          accepts.logical.2
      rw [eval]
      refine (Complies.memoized obeys path ?_).plain
      refine first.valueOf.bind fun _ middle leads trusted => ?_
      split
      · exact Complies.pure trusted
      · exact (second middle leads).valueOf
  | .conditional _ test consequent alternate, accepts => by
      have first := eval_complies context .value (.test :: path) before obeys test
        accepts.conditional.1
      have second := fun middle (leads : before.Leads policy tree middle) =>
        eval_complies context .value (.consequent :: path) middle (obeys.leads leads) consequent
          accepts.conditional.2.1
      have third := fun middle (leads : before.Leads policy tree middle) =>
        eval_complies context .value (.alternate :: path) middle (obeys.leads leads) alternate
          accepts.conditional.2.2
      rw [eval]
      refine (Complies.memoized obeys path ?_).plain
      refine first.valueOf.bind fun _ middle leads _ => ?_
      split
      · exact (second middle leads).valueOf
      · exact (third middle leads).valueOf
  | .assign loc op target value, accepts => by
      have first := evalReference_complies context (.target :: path) before obeys target
        accepts.assign.1.1 accepts.assign.1.2
      have second := fun middle (leads : before.Leads policy tree middle) =>
        eval_complies context .value (.value :: path) middle (obeys.leads leads) value
          accepts.assign.2
      rw [eval]
      refine first.bind fun reference middle leads trusted => ?_
      -- The value is evaluated and written, after whatever was read before.
      have stores : ∀ world, middle.Leads policy tree world →
          Complies policy tree policy.error (do
            let value ← valueOf (eval context .value (.value :: path) value)
            writeReference context reference value
            return plain value) world fun outcome after => after.TrustsOutcome policy outcome := by
        intro world leads'
        refine (second world (leads.trans leads')).valueOf.bind fun value later leads'' new => ?_
        refine (Complies.writeReference context ((leads'.trans leads'').trustsReference trusted)
          new).andThen fun _ _ written _ => ?_
        exact trustsOutcome_plain (written.trusts new)
      cases op with
      | plain => exact stores middle (.refl middle)
      | logical op =>
          refine (Complies.readReference (obeys.leads leads) trusted).bind
            fun current later leads' trustedCurrent => ?_
          split
          · exact Complies.pure (trustsOutcome_plain trustedCurrent)
          · exact stores later leads'
      | arithmetic op =>
          refine (Complies.readReference (obeys.leads leads) trusted).bind
            fun current later leads' _ => ?_
          refine (second later (leads.trans leads')).valueOf.bind fun right last leads'' _ => ?_
          refine (Complies.applyBinary (fun _ notSyntax => accepts.raised notSyntax) _ _ _).bind
            fun result _ applied new => ?_
          refine (Complies.writeReference context
            (((leads'.trans leads'').trans applied).trustsReference trusted) new).andThen
            fun _ _ written _ => ?_
          exact trustsOutcome_plain (written.trusts new)
  | .destructure _ _ pattern value, accepts => by
      have first := eval_complies context .value (.value :: path) before obeys value
        accepts.destructure.2
      have second := fun middle bound (leads : before.Leads policy tree middle)
          (trusted : middle.Trusts policy bound) =>
        bind_complies context (.pattern :: path) middle (obeys.leads leads) {} bound pattern
          (trustsRecord_empty _) trusted accepts.destructure.1
      rw [eval]
      refine first.valueOf.bind fun bound middle leads trusted => ?_
      refine (second middle bound leads trusted).bind fun bindings later leads' trusted' => ?_
      refine (Complies.assignAll (fun _ _ isTrusted => Heap.evolves_setVariable isTrusted)
        trusted').andThen fun _ _ written _ => ?_
      exact trustsOutcome_plain ((leads'.trans written).trusts trusted)
  | .sequence _ items, accepts => by
      have last := evalSequence_complies context path before obeys 0 .undefined items
        (Heap.trusted_primitive rfl) accepts.sequence
      rw [eval]
      exact last.plain
  | .member loc owner key optional, accepts => by
      have first := eval_complies context .link (.object :: path) before obeys owner
        accepts.member.1
      have second := fun middle (leads : before.Leads policy tree middle) =>
        evalMemberKey_complies context (.key :: path) middle (obeys.leads leads) key
          accepts.member.2
      have link := first.bind fun outcome middle leads trusted =>
        memberLink_complies (fun _ notSyntax => accepts.raised notSyntax) optional trusted
          (second middle leads)
      cases use with
      | value =>
          rw [eval]
          exact (Complies.memoized obeys path link.valueOf).plain
      | link =>
          rw [eval]
          refine link.andThen fun outcome after _ trusted => ?_
          rcases outcome with _ | ⟨this, value⟩
          · exact trustsOutcome_none _
          · exact trustsOutcome_plain (trusted _ _ rfl).2
      | callee =>
          rw [eval]
          exact link
  | .call loc callee args optional, accepts => by
      have first := eval_complies context .callee (.callee :: path) before obeys callee
        accepts.call.1
      have second := fun middle (leads : before.Leads policy tree middle) =>
        evalArguments_complies context path middle (obeys.leads leads) 0 args accepts.call.2
      have link := first.bind fun outcome middle leads trusted =>
        callLink_complies (obeys.leads leads) accepts.anchored callee optional trusted
          (second middle leads)
      cases use with
      | value =>
          rw [eval]
          exact (Complies.memoized obeys path link.valueOf).plain
      | link =>
          rw [eval]
          · exact link
          · simp
      | callee =>
          rw [eval]
          · exact link
          · simp
  | .new loc callee args, accepts => by
      have first := eval_complies context .value (.callee :: path) before obeys callee
        accepts.new.1
      have second := fun middle (leads : before.Leads policy tree middle) =>
        evalArguments_complies context path middle (obeys.leads leads) 0 args accepts.new.2
      rw [eval]
      refine (Complies.memoized obeys path ?_).plain
      refine first.valueOf.bind fun function middle leads trusted => ?_
      refine (second middle leads).bind fun values later leads' trustedArgs => ?_
      exact Complies.constructValue accepts.anchored (obeys.leads (leads.trans leads')) callee
        (leads'.trusts trusted) trustedArgs
  | .tagged loc tag _ quasis holes, accepts => by
      have first := eval_complies context .callee (.tag :: path) before obeys tag accepts.tagged.1
      have second := fun middle (leads : before.Leads policy tree middle) =>
        evalHoles_complies context path middle (obeys.leads leads) 0 holes accepts.tagged.2
      rw [eval]
      refine (Complies.memoized obeys path ?_).plain
      refine first.bind fun outcome middle leads trusted => ?_
      have trustedTag : middle.Trusts policy (outcome.getD (.undefined, .undefined)).1 ∧
          middle.Trusts policy (outcome.getD (.undefined, .undefined)).2 := by
        cases outcome with
        | none => exact ⟨Heap.trusted_primitive rfl, Heap.trusted_primitive rfl⟩
        | some result => exact trusted _ _ rfl
      refine (Complies.templateStrings quasis).bind fun strings later leads' trustedStrings => ?_
      refine (second later (leads.trans leads')).bind fun values last leads'' trustedValues => ?_
      refine Complies.callValue accepts.anchored
        (obeys.leads ((leads.trans leads').trans leads'')) tag
        ((leads'.trans leads'').trusts trustedTag.2) ((leads'.trans leads'').trusts trustedTag.1) ?_
      intro argument member
      rcases List.mem_cons.mp member with rfl | isValue
      · exact leads''.trusts trustedStrings
      · exact trustedValues argument isValue
  | .spread loc _, accepts => by
      rw [eval]
      rcases accepts with lenient | ⟨isSpread, -⟩
      · exact Complies.raise (lenient _)
      · cases isSpread

theorem evalReference_complies (context : Context) (path : Path) (before : World)
    (obeys : context.Obeys policy tree before) :
    ∀ expr : Expr, policy.Accepts expr → policy.IsLenient ∨ expr.isSimpleTarget = true →
      Complies policy tree policy.error (evalReference context path expr) before
        fun reference after => after.TrustsReference policy reference
  | .paren _ inner, accepts, simple => by
      rw [evalReference]
      exact evalReference_complies context (.inner :: path) before obeys inner accepts.paren simple
  | .ident id, accepts, _ => by
      rw [evalReference]
      exact Complies.pure fun _ notSyntax => accepts.raised notSyntax
  | .member loc owner key _, accepts, _ => by
      have first := eval_complies context .value (.object :: path) before obeys owner
        accepts.member.1
      have second := fun middle (leads : before.Leads policy tree middle) =>
        evalMemberKey_complies context (.key :: path) middle (obeys.leads leads) key
          accepts.member.2
      rw [evalReference]
      refine first.valueOf.bind fun object middle leads trusted => ?_
      exact (second middle leads).andThen fun _ _ leads' _ =>
        ⟨leads'.trusts trusted, fun _ notSyntax => accepts.raised notSyntax⟩
  | .null _, _, simple | .boolean _ _, _, simple | .number _, _, simple | .string _, _, simple
  | .regExp _ _ _, _, simple | .template _ _ _, _, simple | .this _, _, simple
  | .array _ _, _, simple | .object _ _, _, simple | .arrow _ _ _, _, simple
  | .unary _ _ _, _, simple | .update _ _ _ _, _, simple | .binary _ _ _ _, _, simple
  | .logical _ _ _ _, _, simple | .conditional _ _ _ _, _, simple | .assign _ _ _ _, _, simple
  | .destructure _ _ _ _, _, simple | .sequence _ _, _, simple | .call _ _ _ _, _, simple
  | .new _ _ _, _, simple | .tagged _ _ _ _ _, _, simple | .spread _ _, _, simple => by
      simp only [evalReference]
      rcases simple with lenient | isTarget
      · exact Complies.raise (lenient _)
      · cases isTarget

theorem evalMemberKey_complies (context : Context) (path : Path) (before : World)
    (obeys : context.Obeys policy tree before) :
    ∀ key : MemberKey, policy.AcceptsMemberKey key →
      Complies policy tree policy.error (evalMemberKey context path key) before fun _ _ => True
  | .name _, _ => by
      rw [evalMemberKey]
      exact Complies.pure trivial
  | .computed key, accepts => by
      rw [evalMemberKey]
      exact (eval_complies context .value path before obeys key accepts.computed).valueOf.bind
        fun _ _ _ _ => Complies.inspected trivial

theorem evalPropertyKey_complies (context : Context) (path : Path) (before : World)
    (obeys : context.Obeys policy tree before) :
    ∀ key : PropertyKey, policy.AcceptsKey key →
      Complies policy tree policy.error (evalPropertyKey context path key) before fun _ _ => True
  | .name _, _ => by
      rw [evalPropertyKey]
      exact Complies.pure trivial
  | .string _, _ => by
      rw [evalPropertyKey]
      exact Complies.pure trivial
  | .number _, _ => by
      rw [evalPropertyKey]
      exact Complies.pure trivial
  | .computed key, accepts => by
      rw [evalPropertyKey]
      exact (eval_complies context .value path before obeys key accepts.computed).valueOf.bind
        fun _ _ _ _ => Complies.inspected trivial

theorem evalTemplate_complies (context : Context) (path : Path) (before : World)
    (obeys : context.Obeys policy tree before) (index : Nat) :
    ∀ (quasis : List Quasi) (holes : List Expr), (∀ hole ∈ holes, policy.Accepts hole) →
      Complies policy tree policy.error (evalTemplate context path index quasis holes) before
        fun _ _ => True
  | [], _, _ => by
      rw [evalTemplate]
      exact Complies.pure trivial
  | quasi :: quasis, [], _ => by
      rw [evalTemplate]
      exact Complies.pure trivial
  | quasi :: quasis, hole :: holes, accepts => by
      rcases List.forall_mem_cons.mp accepts with ⟨here, later⟩
      have first := eval_complies context .value (.item index :: path) before obeys hole here
      rw [evalTemplate]
      refine first.valueOf.bind fun _ middle leads _ => Complies.inspect ?_
      exact (evalTemplate_complies context path middle (obeys.leads leads) (index + 1) quasis holes
        later).andThen fun _ _ _ _ => trivial

theorem evalHoles_complies (context : Context) (path : Path) (before : World)
    (obeys : context.Obeys policy tree before) (index : Nat) :
    ∀ holes : List Expr, (∀ hole ∈ holes, policy.Accepts hole) →
      Complies policy tree policy.error (evalHoles context path index holes) before
        fun values after => ∀ value ∈ values, after.Trusts policy value
  | [], _ => by
      rw [evalHoles]
      exact Complies.pure nofun
  | hole :: holes, accepts => by
      rcases List.forall_mem_cons.mp accepts with ⟨here, later⟩
      have first := eval_complies context .value (.item index :: path) before obeys hole here
      rw [evalHoles]
      refine first.valueOf.bind fun _ middle leads trusted => ?_
      exact (evalHoles_complies context path middle (obeys.leads leads) (index + 1) holes
        later).andThen fun _ _ leads' others =>
          List.forall_mem_cons.mpr ⟨leads'.trusts trusted, others⟩

theorem evalSequence_complies (context : Context) (path : Path) (before : World)
    (obeys : context.Obeys policy tree before) (index : Nat) (last : Value) :
    ∀ items : List Expr, before.Trusts policy last → (∀ item ∈ items, policy.Accepts item) →
      Complies policy tree policy.error (evalSequence context path index last items) before
        fun value after => after.Trusts policy value
  | [], trusted, _ => by
      rw [evalSequence]
      exact Complies.pure trusted
  | item :: items, _, accepts => by
      rcases List.forall_mem_cons.mp accepts with ⟨here, later⟩
      have first := eval_complies context .value (.item index :: path) before obeys item here
      rw [evalSequence]
      exact first.valueOf.bind fun value middle leads trusted =>
        evalSequence_complies context path middle (obeys.leads leads) (index + 1) value items
          trusted later

theorem evalArguments_complies (context : Context) (path : Path) (before : World)
    (obeys : context.Obeys policy tree before) (index : Nat) :
    ∀ args : List Expr, (∀ argument ∈ args, policy.AcceptsItem argument) →
      Complies policy tree policy.error (evalArguments context path index args) before
        fun values after => ∀ value ∈ values, after.Trusts policy value
  | [], _ => by
      rw [evalArguments]
      exact Complies.pure nofun
  | argument :: args, accepts => by
      rcases List.forall_mem_cons.mp accepts with ⟨here, later⟩
      have rest := fun middle (leads : before.Leads policy tree middle) =>
        evalArguments_complies context path middle (obeys.leads leads) (index + 1) args later
      have first := fun notSpread => eval_complies context .value (.item index :: path) before
        obeys argument (here.whole notSpread)
      cases argument with
      | spread _ inner =>
          have spread := eval_complies context .value (.inner :: .item index :: path) before obeys
            inner here.spread
          rw [evalArguments]
          refine spread.valueOf.bind fun _ middle leads trusted => ?_
          refine (Complies.spreadValues (fun _ notSyntax => here.spread.raised notSyntax)
            trusted).bind fun values later leads' trustedValues => ?_
          exact (rest later (leads.trans leads')).andThen fun _ _ leads'' others =>
            List.forall_mem_append.mpr ⟨leads''.trustsAll trustedValues, others⟩
      | _ =>
          rw [evalArguments_cons _ _ _ _ _ (by simp)]
          refine (first rfl).valueOf.bind fun _ middle leads trusted => ?_
          exact (rest middle leads).andThen fun _ _ leads' others =>
            List.forall_mem_cons.mpr ⟨leads'.trusts trusted, others⟩

theorem evalElements_complies (context : Context) (path : Path) (before : World)
    (obeys : context.Obeys policy tree before) (index : Nat) :
    ∀ elements : List (Option Expr),
      (∀ element, some element ∈ elements → policy.AcceptsItem element) →
      Complies policy tree policy.error (evalElements context path index elements) before
        fun values after => ∀ value ∈ values, after.Trusts policy value
  | [], _ => by
      rw [evalElements]
      exact Complies.pure nofun
  | none :: elements, accepts => by
      have rest := evalElements_complies context path before obeys (index + 1) elements
        fun element member => accepts element (List.mem_cons_of_mem _ member)
      rw [evalElements]
      exact rest.andThen fun _ _ _ others =>
        List.forall_mem_cons.mpr ⟨Heap.trusted_primitive rfl, others⟩
  | some element :: elements, accepts => by
      have here := accepts element List.mem_cons_self
      have rest := fun middle (leads : before.Leads policy tree middle) =>
        evalElements_complies context path middle (obeys.leads leads) (index + 1) elements
          fun element member => accepts element (List.mem_cons_of_mem _ member)
      have first := fun notSpread => eval_complies context .value (.item index :: path) before
        obeys element (here.whole notSpread)
      cases element with
      | spread _ inner =>
          have spread := eval_complies context .value (.inner :: .item index :: path) before obeys
            inner here.spread
          rw [evalElements]
          refine spread.valueOf.bind fun _ middle leads trusted => ?_
          refine (Complies.spreadValues (fun _ notSyntax => here.spread.raised notSyntax)
            trusted).bind fun values later leads' trustedValues => ?_
          exact (rest later (leads.trans leads')).andThen fun _ _ leads'' others =>
            List.forall_mem_append.mpr ⟨leads''.trustsAll trustedValues, others⟩
      | _ =>
          rw [evalElements_some _ _ _ _ _ (by simp)]
          refine (first rfl).valueOf.bind fun _ middle leads trusted => ?_
          exact (rest middle leads).andThen fun _ _ leads' others =>
            List.forall_mem_cons.mpr ⟨leads'.trusts trusted, others⟩

theorem evalProperties_complies (context : Context) (path : Path) (before : World)
    (obeys : context.Obeys policy tree before) (index : Nat) (record : Record) :
    ∀ properties : List Property, before.TrustsRecord policy record →
      (∀ property ∈ properties, policy.AcceptsProperty property) →
      Complies policy tree policy.error (evalProperties context path index record properties)
        before fun record after => after.TrustsRecord policy record
  | [], trusted, _ => by
      rw [evalProperties]
      exact Complies.pure trusted
  | .field _ key value _ :: properties, trusted, accepts => by
      rcases List.forall_mem_cons.mp accepts with ⟨here, later⟩
      have first := evalPropertyKey_complies context (.key :: .item index :: path) before obeys key
        here.field.1
      have second := fun middle (leads : before.Leads policy tree middle) =>
        eval_complies context .value (.value :: .item index :: path) middle (obeys.leads leads)
          value here.field.2
      rw [evalProperties]
      refine first.bind fun name middle leads _ => ?_
      refine (second middle leads).valueOf.bind fun value last leads' trustedValue => ?_
      have whole := leads.trans leads'
      exact evalProperties_complies context path last (obeys.leads whole) (index + 1) _ properties
        ((whole.trustsRecord trusted).set name trustedValue) later
  | .spread _ argument :: properties, trusted, accepts => by
      rcases List.forall_mem_cons.mp accepts with ⟨here, later⟩
      have first := eval_complies context .value (.inner :: .item index :: path) before obeys
        argument here.spread
      rw [evalProperties]
      refine first.valueOf.bind fun value middle leads trustedValue => Complies.inspect ?_
      exact evalProperties_complies context path middle (obeys.leads leads) (index + 1) _ properties
        ((leads.trustsRecord trusted).setAll fun _ _ member =>
          Heap.trusted_ownEntries trustedValue member) later

theorem bind_complies (context : Context) (path : Path) (before : World)
    (obeys : context.Obeys policy tree before) (bindings : Record) (value : Value) :
    ∀ pattern : Pattern, before.TrustsRecord policy bindings → before.Trusts policy value →
      policy.AcceptsPattern pattern →
      Complies policy tree policy.error (bind context path bindings value pattern) before
        fun bindings after => after.TrustsRecord policy bindings
  | .ident id, bound, trusted, _ => by
      rw [bind]
      exact Complies.pure (bound.set id.name trusted)
  | .rest _ argument, bound, trusted, accepts => by
      rw [bind]
      exact bind_complies context (.inner :: path) before obeys bindings value argument bound
        trusted accepts.rest
  | .withDefault _ target fallback, bound, trusted, accepts => by
      have first := fun scope middle (obeys : Context.Obeys policy tree { context with scope } middle)
        => eval_complies { context with scope } .value (.value :: path) middle obeys fallback
          accepts.withDefault.2
      have second := fun middle value (leads : before.Leads policy tree middle)
          (trusted : middle.Trusts policy value) =>
        bind_complies context (.target :: path) middle (obeys.leads leads) bindings value target
          (leads.trustsRecord bound) trusted accepts.withDefault.1
      rw [bind]
      split
      · refine Complies.inPattern obeys bound fun scope middle leads obeys' => ?_
        exact (first scope middle obeys').valueOf.bind fun value last leads' trustedValue =>
          second last value (leads.trans leads') trustedValue
      · exact second before value (.refl before) trusted
  | .array loc elements, bound, trusted, accepts => by
      rw [bind]
      split
      · exact Complies.nullishTarget (fun _ notSyntax => accepts.raised notSyntax) value
      · refine (Complies.spreadValues (fun _ notSyntax => accepts.raised notSyntax) trusted).bind
          fun items middle leads trustedItems => ?_
        exact bindElements_complies context path middle (obeys.leads leads) 0 bindings items elements
          (leads.trustsRecord bound) trustedItems accepts.array
  | .object loc properties, bound, trusted, accepts => by
      rw [bind]
      split
      · exact Complies.nullishTarget (fun _ notSyntax => accepts.raised notSyntax) value
      · exact bindProperties_complies context path before obeys 0 bindings value [] properties bound
          trusted accepts.object

theorem bindElements_complies (context : Context) (path : Path) (before : World)
    (obeys : context.Obeys policy tree before) (index : Nat) (bindings : Record)
    (items : List Value) :
    ∀ elements : List (Option Pattern), before.TrustsRecord policy bindings →
      (∀ item ∈ items, before.Trusts policy item) →
      (∀ element, some element ∈ elements → policy.AcceptsPattern element) →
      Complies policy tree policy.error (bindElements context path index bindings items elements)
        before fun bindings after => after.TrustsRecord policy bindings
  | [], bound, _, _ => by
      rw [bindElements]
      exact Complies.pure bound
  | none :: elements, bound, trusted, accepts => by
      rw [bindElements]
      exact bindElements_complies context path before obeys (index + 1) bindings items.tail elements
        bound (fun item member => trusted item (List.mem_of_mem_tail member))
        fun element member => accepts element (List.mem_cons_of_mem _ member)
  | some element :: elements, bound, trusted, accepts => by
      have here := accepts element List.mem_cons_self
      have head : before.Trusts policy (items.head?.getD .undefined) := by
        cases items with
        | nil => exact Heap.trusted_primitive rfl
        | cons item items => exact trusted item List.mem_cons_self
      have first := bind_complies context (.item index :: path) before obeys bindings
        (items.head?.getD .undefined) element bound head here
      have second := fun middle bindings (leads : before.Leads policy tree middle)
          (bound : middle.TrustsRecord policy bindings) =>
        bindElements_complies context path middle (obeys.leads leads) (index + 1) bindings items.tail
          elements bound
          (leads.trustsAll fun item member => trusted item (List.mem_of_mem_tail member))
          fun element member => accepts element (List.mem_cons_of_mem _ member)
      cases element with
      | rest _ argument =>
          have rest := fun middle array (leads : before.Leads policy tree middle)
              (trusted : middle.Trusts policy array) =>
            bind_complies context (.inner :: .item index :: path) middle (obeys.leads leads)
              bindings array argument (leads.trustsRecord bound) trusted here.rest
          rw [bindElements]
          refine (Complies.newArray trusted).bind fun array middle leads trustedArray => ?_
          exact (rest middle array leads trustedArray).bind fun bindings last leads' bound' =>
            second last bindings (leads.trans leads') bound'
      | _ =>
          rw [bindElements_some _ _ _ _ _ _ _ (by simp)]
          exact first.bind fun bindings middle leads bound' => second middle bindings leads bound'

theorem bindProperties_complies (context : Context) (path : Path) (before : World)
    (obeys : context.Obeys policy tree before) (index : Nat) (bindings : Record) (value : Value)
    (taken : List String) :
    ∀ properties : List PatternProperty, before.TrustsRecord policy bindings →
      before.Trusts policy value →
      (∀ property ∈ properties, policy.AcceptsPatternProperty property) →
      Complies policy tree policy.error
        (bindProperties context path index bindings value taken properties) before
        fun bindings after => after.TrustsRecord policy bindings
  | [], bound, _, _ => by
      rw [bindProperties]
      exact Complies.pure bound
  | .field loc key pattern _ :: properties, bound, trusted, accepts => by
      rcases List.forall_mem_cons.mp accepts with ⟨here, later⟩
      have first := evalPatternKey_complies context (.key :: .item index :: path) before obeys
        bindings key bound here.field.1
      have second := fun middle item (leads : before.Leads policy tree middle)
          (trusted : middle.Trusts policy item) =>
        bind_complies context (.value :: .item index :: path) middle (obeys.leads leads) bindings
          item pattern (leads.trustsRecord bound) trusted here.field.2.1
      rw [bindProperties]
      refine first.bind fun name middle leads _ => ?_
      refine (Complies.readProperty here.field.2.2 name (leads.trusts trusted)).bind
        fun item next leads' trustedItem => ?_
      refine (second next item (leads.trans leads') trustedItem).bind
        fun bindings last leads'' bound' => ?_
      have whole := (leads.trans leads').trans leads''
      exact bindProperties_complies context path last (obeys.leads whole) (index + 1) bindings value
        _ properties bound' (whole.trusts trusted) later
  | .rest _ argument :: properties, bound, trusted, accepts => by
      rcases List.forall_mem_cons.mp accepts with ⟨here, later⟩
      have first := fun middle others (leads : before.Leads policy tree middle)
          (trusted : middle.Trusts policy others) =>
        bind_complies context (.inner :: .item index :: path) middle (obeys.leads leads) bindings
          others argument (leads.trustsRecord bound) trusted here.rest
      rw [bindProperties]
      refine Complies.inspect ?_
      have others : before.TrustsRecord policy (.ofEntries
          ((before.heap.ownEntries value).filter fun (key, _) => !taken.contains key)) :=
        (trustsRecord_empty before).setAll fun _ _ member =>
          Heap.trusted_ownEntries trusted (List.mem_of_mem_filter member)
      refine (Complies.newObject others).bind fun object middle leads trustedObject => ?_
      refine (first middle object leads trustedObject).bind fun bindings last leads' bound' => ?_
      have whole := leads.trans leads'
      exact bindProperties_complies context path last (obeys.leads whole) (index + 1) bindings value
        taken properties bound' (whole.trusts trusted) later

theorem evalPatternKey_complies (context : Context) (path : Path) (before : World)
    (obeys : context.Obeys policy tree before) (bindings : Record) :
    ∀ key : PropertyKey, before.TrustsRecord policy bindings → policy.AcceptsKey key →
      Complies policy tree policy.error (evalPatternKey context path bindings key) before
        fun _ _ => True
  | .name _, _, _ => by
      rw [evalPatternKey]
      exact Complies.pure trivial
  | .string _, _, _ => by
      rw [evalPatternKey]
      exact Complies.pure trivial
  | .number _, _, _ => by
      rw [evalPatternKey]
      exact Complies.pure trivial
  | .computed key, bound, accepts => by
      have first := fun scope middle (obeys : Context.Obeys policy tree { context with scope } middle)
        => eval_complies { context with scope } .value path middle obeys key accepts.computed
      rw [evalPatternKey]
      refine Complies.inPattern obeys bound fun scope middle _ obeys' => ?_
      exact (first scope middle obeys').valueOf.bind fun _ _ _ _ => Complies.inspected trivial

end

end ExprScript.Eval
