import ExprScript.Proofs.OptionalChain
import ExprScript.Proofs.Shell.Literal

/-! # Shown documents evaluate to their values

The value of a document is shown as a text that parses, and the expression evaluates
to a value that is equal in structure, whatever scope it is evaluated in.
-/

namespace ExprScript

open Eval

/-! ## Expressions up to places -/

namespace Expr

variable {expr : Expr}

theorem isSpread_erase (expr : Expr) : expr.erase.isSpread = expr.isSpread := by
  cases expr <;> simp only [erase, isSpread]

theorem eq_null_of_erase {loc : Span} (same : expr.erase = .null loc) :
    ∃ loc, expr = .null loc := by
  cases expr <;> simp_all [erase]

theorem eq_boolean_of_erase {loc : Span} {value : Bool} (same : expr.erase = .boolean loc value) :
    ∃ loc, expr = .boolean loc value := by
  cases expr <;> simp_all [erase]

theorem eq_number_of_erase {literal : NumberLiteral} (same : expr.erase = .number literal) :
    ∃ literal', expr = .number literal' ∧ literal'.value = literal.value := by
  cases expr <;> simp_all [erase]
  case number found => rw [← same]; rfl

theorem eq_string_of_erase {literal : StringLiteral} (same : expr.erase = .string literal) :
    ∃ literal', expr = .string literal' ∧ literal'.value = literal.value := by
  cases expr <;> simp_all [erase]
  case string found => rw [← same]; rfl

theorem eq_unary_of_erase {loc : Span} {op : UnaryOp} {argument : Expr}
    (same : expr.erase = .unary loc op argument) :
    ∃ loc argument', expr = .unary loc op argument' ∧ argument'.erase = argument := by
  cases expr <;> simp_all [erase]

theorem eq_array_of_erase {loc : Span} {elements : List (Option Expr)}
    (same : expr.erase = .array loc elements) :
    ∃ loc elements', expr = .array loc elements' ∧ eraseElements elements' = elements := by
  cases expr <;> simp_all [erase]

theorem eq_object_of_erase {loc : Span} {properties : List Property}
    (same : expr.erase = .object loc properties) :
    ∃ loc properties', expr = .object loc properties' ∧
      eraseProperties properties' = properties := by
  cases expr <;> simp_all [erase]

end Expr

theorem eq_nil_of_eraseElements {elements : List (Option Expr)}
    (same : eraseElements elements = []) : elements = [] := by
  cases elements with
  | nil => rfl
  | cons element elements => cases element <;> cases same

theorem eq_cons_of_eraseElements {elements others : List (Option Expr)} {expr : Expr}
    (same : eraseElements elements = some expr :: others) :
    ∃ found others', elements = some found :: others' ∧ found.erase = expr ∧
      eraseElements others' = others := by
  cases elements with
  | nil => cases same
  | cons element elements =>
      cases element with
      | none => cases same
      | some found =>
          cases same
          exact ⟨found, elements, rfl, rfl, rfl⟩

theorem eq_nil_of_eraseProperties {properties : List Property}
    (same : eraseProperties properties = []) : properties = [] := by
  cases properties with
  | nil => rfl
  | cons property properties => cases same

theorem eq_cons_of_eraseProperties {properties others : List Property} {loc : Span}
    {name : StringLiteral} {value : Expr} {shorthand : Bool}
    (same : eraseProperties properties = .field loc (.string name) value shorthand :: others) :
    ∃ loc' name' found others', properties = .field loc' (.string name') found shorthand :: others' ∧
      name'.value = name.value ∧ found.erase = value ∧ eraseProperties others' = others := by
  cases properties with
  | nil => cases same
  | cons property properties =>
      cases property with
      | spread => cases same
      | field loc' key found shorthand' =>
          cases key with
          | string name' =>
              cases same
              exact ⟨loc', name', found, properties, rfl, rfl, rfl, rfl⟩
          | name | number | computed => cases same

/-! ## Evaluation -/

namespace Creates

variable {before : World} {held : Heap → Value → Prop}

def PlainHeld (held : Heap → Value → Prop) (heap : Heap) (outcome : Outcome) : Prop :=
  ∃ value, outcome = plain value ∧ held heap value

theorem plain {action : Eval Value} (creates : Creates action before held) :
    Creates (do return Eval.plain (← action)) before (PlainHeld held) :=
  creates.bind fun value _ _ holds => .pure ⟨value, rfl, holds⟩

theorem valueOf {action : Eval Outcome} (creates : Creates action before (PlainHeld held)) :
    Creates (Eval.valueOf action) before held := by
  refine creates.bind fun outcome _ _ holds => ?_
  rcases holds with ⟨value, rfl, holds⟩
  exact .pure holds

theorem memoized {context : Context} {path : Path} {action : Eval Value}
    (anew : context.useMemo = false) (creates : Creates action before held) :
    Creates (Eval.memoized context path action) before held := by
  have unremembered : Unremembered context before := by
    intro used
    rw [anew] at used
    cases used
  exact memoized_achieves unremembered creates

end Creates

namespace Document

theorem beq_abs {number : Float} (finite : number.isFinite = true)
    (positive : ¬ Number.isNegative number = true) : (number.abs == number) = true := by
  cases sign : Number.hasSign number with
  | false =>
      rw [Number.abs_eq_self finite sign]
      exact (Number.beq_self_iff number).mpr (Number.not_isNaN finite)
  | true =>
      have isZero : (number == 0.0) = true := by simpa [Number.isNegative, sign] using positive
      have isZero' : (number.abs == 0.0) = true := by rwa [Number.isZero_abs finite]
      exact Number.beq_trans isZero' (Number.beq_symm isZero)

/-- A number is evaluated to itself, but for the sign of zero. -/
theorem eval_number_creates {number : Float} (finite : number.isFinite = true) {found : Expr}
    (same : found.erase = (Number.toExpr number).erase) {context : Context}
    (anew : context.useMemo = false) (use : Use) (path : Path) (before : World) :
    Creates (eval context use path found) before
      (Creates.PlainHeld fun _ value => NumberHeld number value) := by
  unfold Number.toExpr at same
  split at same
  · next negative =>
      have sign : Number.hasSign number = true := (Bool.and_eq_true_iff.mp negative).1
      rcases Expr.eq_unary_of_erase same with ⟨loc, argument, rfl, inner⟩
      rcases Expr.eq_number_of_erase inner with ⟨literal, rfl, value⟩
      rw [eval]
      refine .plain (.memoized anew ?_)
      refine ⟨.number (-literal.value), before, rfl, .refl _, _, rfl, ?_⟩
      rw [value]
      change (-number.abs == number) = true
      rw [Number.neg_abs finite sign]
      exact (Number.beq_self_iff number).mpr (Number.not_isNaN finite)
  · next positive =>
      rcases Expr.eq_number_of_erase same with ⟨literal, rfl, value⟩
      rw [eval]
      refine .pure ⟨_, rfl, _, rfl, ?_⟩
      rw [value]
      exact beq_abs finite positive

mutual

/-- The expression of a document evaluates to a value of the document. -/
theorem eval_creates : ∀ (document : Document), document.Valid → ∀ {found : Expr},
    found.erase = document.toExpr.erase → ∀ {context : Context}, context.useMemo = false →
      ∀ (use : Use) (path : Path) (before : World),
        Creates (eval context use path found) before (Creates.PlainHeld document.Held)
  | .null, _, _, same, _, _, _, _, _ => by
      rcases Expr.eq_null_of_erase same with ⟨loc, rfl⟩
      rw [eval]
      exact .pure ⟨_, rfl, rfl⟩
  | .boolean _, _, _, same, _, _, _, _, _ => by
      rcases Expr.eq_boolean_of_erase same with ⟨loc, rfl⟩
      rw [eval]
      exact .pure ⟨_, rfl, rfl⟩
  | .integer _, valid, _, same, _, anew, use, path, before =>
      eval_number_creates (Number.isFinite_ofInt valid) same anew use path before
  | .fraction _, valid, _, same, _, anew, use, path, before =>
      eval_number_creates valid same anew use path before
  | .string _, _, _, same, _, _, _, _, _ => by
      rcases Expr.eq_string_of_erase same with ⟨literal, rfl, value⟩
      rw [eval, value]
      exact .pure ⟨_, rfl, rfl⟩
  | .array items, valid, _, same, context, anew, _, path, before => by
      rcases Expr.eq_array_of_erase same with ⟨loc, elements, rfl, inner⟩
      rw [eval]
      exact .bind (evalElements_creates items valid inner anew path 0 before)
        fun _ _ _ held => .plain (newArray_creates held)
  | .object members, valid, _, same, context, anew, _, path, before => by
      rcases Expr.eq_object_of_erase same with ⟨loc, properties, rfl, inner⟩
      rw [eval]
      refine .bind (evalProperties_creates members valid.2 inner anew path 0 {} before)
        fun record after _ held => .plain (newObject_creates ?_)
      rcases held with ⟨entries, rfl, held⟩
      change MembersHeld members after.heap (Record.ofEntries entries).entries
      rwa [entries_ofEntries valid.1 held]

theorem evalElements_creates : ∀ (items : List Document), ItemsValid items →
    ∀ {elements : List (Option Expr)}, eraseElements elements = eraseElements (toElements items) →
      ∀ {context : Context}, context.useMemo = false → ∀ (path : Path) (index : Nat)
        (before : World),
          Creates (evalElements context path index elements) before (ItemsHeld items)
  | [], _, elements, same, _, _, _, _, _ => by
      cases eq_nil_of_eraseElements same
      rw [evalElements]
      exact .pure rfl
  | item :: items, valid, elements, same, context, anew, path, index, before => by
      rcases eq_cons_of_eraseElements same with ⟨found, others, rfl, first, later⟩
      have notSpread : ∀ loc inner, found ≠ .spread loc inner := by
        rintro loc inner rfl
        have kind := congrArg Expr.isSpread first
        rw [Expr.isSpread_erase, Expr.isSpread_erase, (settles_toExpr valid.1).notSpread] at kind
        cases kind
      rw [evalElements_some _ _ _ _ _ notSpread]
      exact .bind (eval_creates item valid.1 first anew .value _ before).valueOf
        fun value after _ held => .bind (evalElements_creates items valid.2 later anew path _ after)
          fun values _ grows held' => .pure ⟨value, values, rfl, held.grows grows, held'⟩

theorem evalProperties_creates : ∀ (members : List (String × Document)), MembersValid members →
    ∀ {properties : List Property},
      eraseProperties properties = eraseProperties (toProperties members) →
        ∀ {context : Context}, context.useMemo = false → ∀ (path : Path) (index : Nat)
          (record : Record) (before : World),
            Creates (evalProperties context path index record properties) before
              fun heap result => ∃ entries, result = record.setAll entries ∧
                MembersHeld members heap entries
  | [], _, properties, same, _, _, _, _, _, _ => by
      cases eq_nil_of_eraseProperties same
      rw [evalProperties]
      exact .pure ⟨[], rfl, rfl⟩
  | (name, member) :: members, valid, properties, same, context, anew, path, index, record,
      before => by
      rcases eq_cons_of_eraseProperties same with
        ⟨loc, literal, found, others, rfl, isName, first, later⟩
      rw [evalProperties, evalPropertyKey, isName, pure_bind]
      refine .bind (eval_creates member valid.1 first anew .value _ before).valueOf
        fun value after _ held => ?_
      refine .mono (evalProperties_creates members valid.2 later anew path (index + 1)
        (record.set name value) after) ?_
      rintro heap result grows ⟨entries, rfl, rest⟩
      exact ⟨(name, value) :: entries, rfl, value, entries, rfl, held.grows grows, rest⟩

end

/-- A valid document has a value, whose shown form parses; and in every scope, and as
long as the containers of the value are not changed, the parsed expression evaluates
to a value that is equal in structure. -/
theorem render_evaluates (document : Document) (valid : document.Valid) (before : World) :
    ∃ value middle, document.toValue before = .ok value middle ∧
      ∃ expr, parse (middle.heap.render value) = .ok expr ∧
        ∀ (host : Host) (tree : Nat) (scope : Scope) (world : World),
          middle.heap.Grows world.heap →
            ∃ result after, evaluate host tree expr scope false world = .ok result after ∧
              after.heap.structuralEqual result value = true := by
  rcases toValue_creates document before valid with ⟨value, middle, run, -, held⟩
  rcases parse_text valid with ⟨expr, parsed, same⟩
  refine ⟨value, middle, run, expr, by rw [held.render, parsed], ?_⟩
  intro host tree scope world grows
  have anew : (rootContext host scope false tree).useMemo = false := rfl
  rcases (eval_creates document valid same anew .value [] world).valueOf with ⟨result, after, run', grows', held'⟩
  exact ⟨result, after, run', held'.structuralEqual (held.grows (grows.trans grows'))⟩

/-- An object with a negative zero, a number below zero and one with an exponent, and
with names and texts that need escapes. -/
def sample : Document :=
  .object [
    ("", .array [.null, .boolean true, .integer (-3), .fraction (-0.0)]),
    ("a\n\"b", .object [("x", .fraction (-2.5e-7)), ("y", .fraction 1e21), ("z", .array [])]),
    ("\\", .string "\u2028\t")]

theorem sample_valid : sample.Valid := by
  have names : (["", "a\n\"b", "\\"] : List String).Nodup := by decide
  have names' : (["x", "y", "z"] : List String).Nodup := by decide
  have finite : (-0.0 : Float).isFinite = true ∧ (-2.5e-7 : Float).isFinite = true ∧
      (1e21 : Float).isFinite = true := by decide
  have small : (-3 : Int).natAbs < 2 ^ 64 := by decide
  exact ⟨names, ⟨trivial, trivial, small, finite.1, trivial⟩,
    ⟨names', finite.2.1, finite.2.2, trivial, trivial⟩, trivial, trivial⟩

theorem render_evaluates_sample : sample.Valid ∧
    ∃ value middle, sample.toValue {} = .ok value middle ∧
      ∃ expr, parse (middle.heap.render value) = .ok expr ∧
        ∃ result after,
          evaluate (fun _ => none) 0 expr { inner := ⟨0⟩ } false middle = .ok result after ∧
            after.heap.structuralEqual result value = true := by
  rcases render_evaluates sample sample_valid {} with
    ⟨value, middle, run, expr, parsed, evaluates⟩
  refine ⟨sample_valid, value, middle, run, expr, parsed, ?_⟩
  exact evaluates (fun _ => none) 0 { inner := ⟨0⟩ } middle (.refl _)

end Document

end ExprScript
