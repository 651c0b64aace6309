import ExprScript.Proofs.Relocation.Evaluation
import ExprScript.Proofs.Shown.World

/-! # Steps of an evaluation and what a text shows

The steps that an evaluation is made of, on worlds that differ in what functions show; the
operands that are shown in parentheses; and the numbers that are shown as operations.
-/

namespace ExprScript

/-! ## Numbers that are not finite -/

namespace Number

open Float.Model Float.Model.UnpackedFloat

theorem eq_of_unpack {first second : Float}
    (same : first.toModel.unpack = second.toModel.unpack) : first = second := by
  have packed : ∀ number : Float,
      pack .binary64 number.toModel.unpack = number.toBits.toBitVec := by
    rintro ⟨⟨bits, valid⟩⟩
    change pack .binary64 (UnpackedFloat.unpack .binary64 bits.toBitVec) = bits.toBitVec
    rw [pack_unpack]
    split
    · next isNaN =>
        rw [isNaNBits, decide_eq_true_iff] at isNaN
        exact (valid.eq_packedNaN isNaN.1 isNaN.2).symm
    · rfl
  apply eq_of_toBits
  rw [← packed, same, packed]

theorem unpack_of_isNaN {number : Float} (isNaN : number.isNaN = true) :
    number.toModel.unpack = .notANumber := by
  change number.toModel.unpack.isNaN = true at isNaN
  cases form : number.toModel.unpack with
  | notANumber => rfl
  | infinity | zero | finite => rw [form] at isNaN; cases isNaN

theorem unpack_of_isInf {number : Float} (infinite : number.isInf = true) :
    number.toModel.unpack = .infinity (if hasSign number then .negative else .positive) := by
  rw [← sign_of_hasSign]
  change (UnpackedFloat.unpack .binary64 number.toBits.toBitVec).isInf = true at infinite
  change UnpackedFloat.unpack .binary64 number.toBits.toBitVec = _
  unfold UnpackedFloat.unpack at infinite ⊢
  dsimp only at infinite ⊢
  split at infinite
  · next largest =>
      split at infinite
      · next none => rw [if_pos largest, if_pos none]
      · cases infinite
  · split at infinite
    · split at infinite <;> cases infinite
    · cases infinite

theorem eq_quotient_of_isNaN {number : Float} (isNaN : number.isNaN = true) :
    number = 0.0 / 0.0 :=
  eq_of_unpack ((unpack_of_isNaN isNaN).trans (unpack_of_isNaN (by decide)).symm)

theorem eq_quotient_of_isInf {number : Float} (infinite : number.isInf = true) :
    number = (if hasSign number then -1.0 else 1.0) / 0.0 := by
  apply eq_of_unpack
  rw [unpack_of_isInf infinite]
  cases hasSign number with
  | true => exact (@unpack_of_isInf (-1.0 / 0.0) (by decide)).symm
  | false => exact (@unpack_of_isInf (1.0 / 0.0) (by decide)).symm

end Number

/-! ## Steps of an evaluation -/

/-- Remembered results are not used, and calls cannot tell functions apart that show the
same. -/
structure Context.Indifferent (context : Context) : Prop where
  call : ∀ ref this args, Mirrors (context.call ref this args) (context.call ref this args)
  unused : context.useMemo = false

theorem Context.Indifferent.withScope {context : Context} (indifferent : context.Indifferent)
    (scope : Scope) : Context.Indifferent { context with scope } :=
  ⟨indifferent.call, indifferent.unused⟩

/-- The references are the same, up to places. -/
inductive Reference.Akin : Reference → Reference → Prop
  | name (loc loc' : Span) (name : String) :
      Akin (.name { loc, name }) (.name { loc := loc', name })
  | property (object : Value) (key : String) (position position' : Position) :
      Akin (.property object key position) (.property object key position')

/-- The outcomes are the same for the tag of a template, which is called also where a chain
has ended early. -/
def Outcome.SameTag (left right : Outcome) : Prop :=
  left.getD (.undefined, .undefined) = right.getD (.undefined, .undefined)

namespace Follows

variable {α β : Type} {post : Value → β → Prop} {context : Context} {path : Path}

theorem rememberedLeft (unused : context.useMemo = false) {left : Eval Value} {right : Eval β}
    (follows : Follows post left right) :
    Follows post (Eval.memoized context path left) right := by
  rw [Eval.memoized_of_unused unused, ← bind_pure right]
  apply bind follows
  intro value value' holds before before' akin
  exact .ok holds ⟨akin.heap, akin.log, akin.nextTree⟩

theorem mono {α β : Type} {post post' : α → β → Prop} {left : Eval α} {right : Eval β}
    (follows : Follows post left right) (weaker : ∀ value value', post value value' →
      post' value value') : Follows post' left right := by
  intro before before' akin
  have result := follows before before' akin
  generalize left before = first at result
  generalize right before' = second at result
  cases result with
  | ok holds akin' => exact .ok (weaker _ _ holds) akin'
  | error holds akin' => exact .error holds akin'

theorem rememberedRight {post : β → Value → Prop} (unused : context.useMemo = false)
    {left : Eval β} {right : Eval Value} (follows : Follows post left right) :
    Follows post left (Eval.memoized context path right) := by
  rw [Eval.memoized_of_unused unused, ← bind_pure left]
  apply bind follows
  intro value value' holds before before' akin
  exact .ok holds ⟨akin.heap, akin.log, akin.nextTree⟩

end Follows

namespace Mirrors

variable {α β : Type} {context : Context} {path path' : Path} {tree : Nat}

theorem remembered {left right : Eval Value} (unused : context.useMemo = false)
    (mirrors : Mirrors left right) :
    Mirrors (Eval.memoized context path left)
      (Eval.memoized (context.movedTo tree) path' right) :=
  Follows.rememberedLeft unused
    (@Follows.rememberedRight _ (context.movedTo tree) _ _ unused _ _ mirrors)

theorem valueOf {left right : Eval Outcome} (mirrors : Mirrors left right) :
    Mirrors (Eval.valueOf left) (Eval.valueOf right) :=
  bind mirrors fun _ => pure _

theorem plainly {left right : Eval Value} (mirrors : Mirrors left right) :
    Mirrors (do return Eval.plain (← left)) (do return Eval.plain (← right)) :=
  bind mirrors fun _ => pure _

theorem known {value : α} {left : Eval β} {step : Eval α} {next : α → Eval β}
    (start : Mirrors (Pure.pure value) step) (rest : Mirrors left (next value)) :
    Mirrors left (step >>= next) := by
  intro before before' akin
  have first := start before before' akin
  simp only [Bind.bind, EStateM.bind]
  generalize step before' = result at first
  cases first with
  | ok same akin' =>
      cases same
      exact rest _ _ akin'

theorem looking {left : Eval α} {next : Heap → Eval α} (rest : ∀ heap, Mirrors left (next heap)) :
    Mirrors left (Eval.heap >>= next) :=
  fun before before' akin => rest before'.heap before before' akin

theorem readName (context : Context) (name : String) (loc loc' : Span) (tree : Nat) :
    Mirrors (Eval.readName context { loc, name })
      (Eval.readName (context.movedTo tree) { loc := loc', name }) := by
  apply bind (inspect fun _ => rfl)
  intro found
  split
  · exact pure _
  · split
    · exact pure _
    · exact raise _ _ _

theorem readReference (context : Context) {reference reference' : Reference}
    (akin : reference.Akin reference') (tree : Nat) :
    Mirrors (Eval.readReference context reference)
      (Eval.readReference (context.movedTo tree) reference') := by
  cases akin with
  | name loc loc' name => exact readName context name loc loc' tree
  | property object key position position' => exact readProperty position position' object key

theorem writeReference (context : Context) {reference reference' : Reference}
    (akin : reference.Akin reference') (value : Value) (tree : Nat) :
    Mirrors (Eval.writeReference context reference value)
      (Eval.writeReference (context.movedTo tree) reference' value) := by
  cases akin with
  | name loc loc' name => exact @modifyHeap (·.assign context.scope name value) fun _ => rfl
  | property object key position position' =>
      exact writeProperty position position' object key value

theorem callValue (indifferent : context.Indifferent) (position position' : Position)
    (callee callee' : Expr) (function this : Value) (args : List Value) (tree : Nat) :
    Mirrors (Eval.callValue context position callee function this args)
      (Eval.callValue (context.movedTo tree) position' callee' function this args) := by
  unfold Eval.callValue
  split
  · exact anchored _ _ (indifferent.call _ _ _)
  · exact Follows.raise (by rfl) _ _
  · exact Follows.raise (by rfl) _ _

theorem constructValue (indifferent : context.Indifferent) (position position' : Position)
    (callee callee' : Expr) (function : Value) (args : List Value) (tree : Nat) :
    Mirrors (Eval.constructValue context position callee function args)
      (Eval.constructValue (context.movedTo tree) position' callee' function args) := by
  cases function with
  | function ref =>
      have same : Follows (fun left right => left.constructible = right.constructible)
          (Eval.inspect fun heap => heap.function ref)
          (Eval.inspect fun heap => heap.function ref) :=
        Follows.bind heap fun left right akin =>
          Follows.pure (congrArg FunctionValue.constructible (akin.function ref) :)
      apply Follows.bind same
      intro left right same
      rw [same]
      split
      · apply bind (newObject _)
        intro this
        exact bind (anchored _ _ (indifferent.call _ _ _)) fun _ => pure _
      · exact Follows.raise (by rfl) _ _
  | _ => exact Follows.raise (by rfl) _ _

theorem createFunction (context : Context) (path path' : Path) (params : List Pattern)
    (body : Expr) (tree : Nat) :
    Mirrors (Eval.createFunction context path params body)
      (Eval.createFunction (context.movedTo tree) path' (shownPatterns params) body.shown) := by
  refine bind (allocate ?_ ?_) fun _ => pure _
  · intro left right akin
    have size := congrArg (fun heap : Heap => heap.functions.size) akin
    simp only [Heap.seen, Array.size_map] at size
    simp only [Heap.newFunction, size]
  · intro left right akin
    rw [Heap.Akin, Heap.newFunction_seen, Heap.newFunction_seen, akin]
    simp only [shownView, FunctionValue.shown, FunctionBody.shown, Closure.shown,
      shownPatterns_shown, Expr.shown_shown]
    rfl

/-- Names that a pattern has bound so far become visible. -/
theorem inPattern (bindings : Record) {next next' : Context → Eval α}
    (rest : ∀ scope, Mirrors (next { context with scope })
      (next' { context.movedTo tree with scope })) :
    Mirrors (Eval.patternContext context bindings >>= next)
      (Eval.patternContext (context.movedTo tree) bindings >>= next') := by
  simp only [Eval.patternContext, bind_assoc, pure_bind]
  exact bind (newChild _ _) rest

theorem templateStrings (quasis : List Quasi) :
    Mirrors (Eval.templateStrings quasis) (Eval.templateStrings (quasis.map Quasi.erase)) := by
  have same : Eval.templateStrings (quasis.map Quasi.erase) = Eval.templateStrings quasis := by
    simp only [Eval.templateStrings, List.map_map]
    rfl
  rw [same]
  exact bind (newArray _) fun _ => bind (allocateSame (fun _ => rfl) fun _ => rfl) fun _ => pure _

end Mirrors

namespace Eval

open Mirrors

/-! ## Parentheses -/

theorem valueOf_plainly (action : Eval Value) :
    valueOf (do return plain (← action)) = action := by
  simp only [valueOf, bind_assoc, pure_bind, plain, Option.map_some, Option.getD_some, bind_pure]

theorem valueOf_pure (value : Value) : valueOf (Pure.pure (plain value)) = Pure.pure value := rfl

theorem valueOf_paren (context : Context) (path : Path) (loc : Span) (inner : Expr) :
    valueOf (eval context .value path (.paren loc inner)) =
      valueOf (eval context .value (.inner :: path) inner) := by
  rw [eval_paren context .value path loc inner nofun, valueOf_plainly]

theorem valueOf_grouped {context : Context} {left : Eval Outcome} {expr : Expr}
    (mirrors : ∀ path, Mirrors left (eval context .value path expr)) (needed : Bool)
    (path : Path) :
    Mirrors (valueOf left) (valueOf (eval context .value path (expr.grouped needed))) := by
  cases needed with
  | false => exact (mirrors path).valueOf
  | true =>
      change Mirrors _ (valueOf (eval context .value path (.paren {} expr)))
      rw [valueOf_paren]
      exact (mirrors (.inner :: path)).valueOf

def Keeps (change : Outcome → Outcome) (action : Eval Outcome) : Prop :=
  (do return change (← action)) = action

section

variable {change : Outcome → Outcome}

theorem Keeps.pure {outcome : Outcome} (same : change outcome = outcome) :
    Keeps change (Pure.pure outcome) := by
  rw [Keeps, pure_bind, same]

theorem Keeps.bind {α : Type} {start : Eval α} {next : α → Eval Outcome}
    (keeps : ∀ value, Keeps change (next value)) : Keeps change (start >>= next) := by
  rw [Keeps, bind_assoc]
  exact congrArg _ (funext keeps)

theorem Keeps.plain {action : Eval Value}
    (same : ∀ value, change (Eval.plain value) = Eval.plain value) :
    Keeps change (do return Eval.plain (← action)) :=
  .bind fun value => .pure (same value)

end

/-- The outcome as that of an expression that is no part of a chain. -/
def alone (outcome : Outcome) : Outcome := plain ((outcome.map (·.2)).getD .undefined)

/-- An expression that takes parentheses in a chain has no part of a chain to hand on. -/
theorem eval_loose {expr : Expr}
    (loose : (expr.isNumber || decide (expr.precedence < Precedence.call)) = true)
    (context : Context) (use : Use) (path : Path) :
    eval context use path expr =
      (do return plain (← valueOf (eval context .value path expr))) := by
  have holds : eval context use path expr = eval context .value path expr ∧
      Keeps alone (eval context .value path expr) := by
    cases expr with
    | null | boolean | string | regExp | template | ident | this | array | object | paren
    | member | call | new | tagged => cases loose
    | number literal =>
        rw [eval, eval]
        exact ⟨rfl, .pure rfl⟩
    | arrow | unary | binary | logical | conditional | sequence =>
        rw [eval, eval]
        exact ⟨rfl, .plain fun _ => rfl⟩
    | update =>
        rw [eval, eval]
        refine ⟨rfl, ?_⟩
        exact .bind fun _ => .bind fun _ => .bind fun _ => .bind fun _ => .pure rfl
    | destructure =>
        rw [eval, eval]
        exact ⟨rfl, .bind fun _ => .bind fun _ => .bind fun _ => .pure rfl⟩
    | assign loc op target value =>
        rw [eval, eval]
        refine ⟨rfl, .bind fun reference => ?_⟩
        cases op with
        | plain => exact .bind fun _ => .bind fun _ => .pure rfl
        | arithmetic op =>
            exact .bind fun _ => .bind fun _ => .bind fun _ => .bind fun _ => .pure rfl
        | logical op =>
            refine .bind fun current => ?_
            split
            · exact .pure rfl
            · exact .bind fun _ => .bind fun _ => .pure rfl
    | spread loc argument =>
        rw [eval, eval]
        exact ⟨rfl, rfl⟩
  rw [holds.1, valueOf]
  simp only [bind_assoc, pure_bind]
  exact holds.2.symm

def detached (outcome : Outcome) : Outcome := outcome.map fun result => (.undefined, result.2)

theorem valueOf_call (context : Context) (path : Path) (loc : Span) (callee : Expr)
    (args : List Expr) (optional : Bool) :
    valueOf (eval context .value path (.call loc callee args optional)) =
      memoized context path (valueOf (eval context .callee path
        (.call loc callee args optional))) := by
  rw [eval, eval, valueOf_plainly]
  rintro ⟨⟩

theorem keeps_call (context : Context) (path : Path) (loc : Span) (callee : Expr)
    (args : List Expr) (optional : Bool) :
    Keeps detached
      (eval context .callee path (.call loc callee args optional)) := by
  rw [eval]
  · apply Keeps.bind
    rintro (_ | ⟨this, function⟩)
    · exact .pure rfl
    · dsimp only
      split
      · exact .pure rfl
      · exact .bind fun _ => .plain fun _ => rfl
  · rintro ⟨⟩

section

variable {context : Context} {tree : Nat} {path path' : Path} {expr : Expr}
  (mirrors : ∀ use path', Mirrors (eval context use path expr)
    (eval (context.movedTo tree) use path' expr.shown))

include mirrors

/-- A part of a chain takes parentheses only where they do not matter. -/
theorem eval_grouped {needed : Bool}
    (loose : needed = true →
      (expr.isNumber || decide (expr.precedence < Precedence.call)) = true) (use : Use)
    (path' : Path) : Mirrors (eval context use path expr)
      (eval (context.movedTo tree) use path' (expr.shown.grouped needed)) := by
  cases needed with
  | false => exact mirrors use path'
  | true =>
      have loose := loose rfl
      have notMember : expr.shown.kind ≠ .memberExpression := by
        rw [← Expr.ownerDemand_shown] at loose
        cases shape : expr.shown with
        | member => rw [shape] at loose; cases loose
        | _ => nofun
      change Mirrors _ (eval (context.movedTo tree) use path' (.paren {} expr.shown))
      rw [eval_loose loose, eval_paren _ _ _ _ _ fun _ => notMember]
      exact (mirrors .value _).valueOf.plainly

theorem eval_tag (unused : context.useMemo = false) :
    Follows Outcome.SameTag (eval context .callee path expr)
      (eval (context.movedTo tree) .callee path' (expr.shown.grouped
        (expr.isOptionalChain || decide (expr.precedence < Precedence.call)))) := by
  cases chain : expr.isOptionalChain with
  | false =>
      have loose : decide (expr.precedence < Precedence.call) = true →
          (expr.isNumber || decide (expr.precedence < Precedence.call)) = true :=
        fun weak => by rw [weak, Bool.or_true]
      apply (eval_grouped mirrors loose .callee path').mono
      exact fun _ _ same => by rw [same, Outcome.SameTag]
  | true =>
      have ended := mirrors .callee (.inner :: path')
      change Follows _ _ (eval (context.movedTo tree) .callee path' (.paren {} expr.shown))
      cases expr with
      | member loc owner key optional =>
          have isMember : ∃ owner' key', (Expr.member loc owner key optional).shown =
              .member {} owner' key' optional := by
            cases key <;> exact ⟨_, _, rfl⟩
          rcases isMember with ⟨owner', key', isMember⟩
          rw [isMember] at ended ⊢
          rw [eval_paren_callee, ← bind_pure (eval context _ _ _)]
          apply Follows.after ended
          intro outcome
          apply Follows.pure
          cases outcome <;> rfl
      | call loc callee args optional =>
          rw [Expr.shown] at ended ⊢
          rw [eval_paren _ _ _ _ (.call {} _ _ _) fun _ => nofun, valueOf_call, ← keeps_call]
          apply @Follows.bind _ _ _ _ (fun outcome value =>
            (detached outcome).getD (.undefined, .undefined) = (.undefined, value))
          · apply @Follows.rememberedRight _ (context.movedTo tree) _ _ unused
            rw [← bind_pure (eval context _ _ _)]
            apply Follows.after ended
            intro outcome
            apply Follows.pure
            cases outcome <;> rfl
          · intro outcome value same
            exact Follows.pure same
      | _ => cases chain

end

/-! ## Numbers -/

section

variable {context : Context} (unused : context.useMemo = false)

theorem eval_number (context : Context) (use : Use) (path : Path) (literal : NumberLiteral) :
    eval context use path (.number literal) = return plain (.number literal.value) := by
  rw [eval]

include unused

theorem eval_minus (use : Use) (path : Path) (literal : NumberLiteral) :
    Mirrors (pure (plain (.number (-literal.value))))
      (eval context use path (.unary {} .minus (.number literal))) := by
  rw [eval]
  apply @Mirrors.known _ _ (.number (-literal.value))
  · apply Follows.rememberedRight unused
    apply looking
    intro heap
    rw [if_neg (by simp), eval_number, valueOf_pure, pure_bind]
    exact looking fun heap => Mirrors.pure _
  · exact Mirrors.pure _

theorem eval_overZero (use : Use) (path : Path) {dividend : Expr} {number : Float}
    (known : ∀ path, Mirrors (pure (plain (.number number))) (eval context .value path dividend)) :
    Mirrors (pure (plain (.number (number / 0.0))))
      (eval context use path (NumberLiteral.overZero dividend)) := by
  rw [NumberLiteral.overZero, eval]
  apply @Mirrors.known _ _ (.number (number / 0.0))
  · apply Follows.rememberedRight unused
    apply @Mirrors.known _ _ (.number number) _ _ _ (known _).valueOf
    rw [eval_number, valueOf_pure, pure_bind]
    exact looking fun heap => Mirrors.pure _
  · exact Mirrors.pure _

theorem eval_shown_number (use : Use) (path : Path) (literal : NumberLiteral) :
    Mirrors (pure (plain (.number literal.value))) (eval context use path literal.shown) := by
  have cases := literal.shown_cases
  generalize literal.shown = expr at cases ⊢
  generalize literal.value = number at cases ⊢
  have one : ∀ path, Mirrors (pure (plain (.number 1.0)))
      (eval context .value path (.number (.written 1.0))) := by
    intro path
    rw [eval_number]
    exact Mirrors.pure _
  cases cases with
  | nan isNaN =>
      rw [Number.eq_quotient_of_isNaN isNaN]
      apply eval_overZero unused
      intro path
      rw [eval_number]
      exact Mirrors.pure _
  | infinite _ infinite positive =>
      have quotient := Number.eq_quotient_of_isInf infinite
      rw [positive] at quotient
      rw [quotient]
      exact eval_overZero unused use path one
  | negativeInfinite _ infinite negative =>
      have quotient := Number.eq_quotient_of_isInf infinite
      rw [negative] at quotient
      rw [quotient]
      exact eval_overZero unused use path fun path => eval_minus unused .value path (.written 1.0)
  | negative finite negative =>
      have opposite := Number.neg_abs finite (Number.hasSign_of_isNegative negative)
      have mirrors := eval_minus unused use path (Number.literal number)
      rwa [show (Number.literal number).value = number.abs from rfl, opposite] at mirrors
  | literal =>
      rw [eval_number]
      exact Mirrors.pure _

end

end Eval

end ExprScript
