import ExprScript.Eval.Library
import ExprScript.Proofs.Build.Reparse
import ExprScript.Proofs.SyntaxErrors
import ExprScript.Proofs.Tree.KeyNames

/-! # The text of a function

A function is converted to its parameters and its body, an arrow between them. The printer writes
the same, but it puts parentheses around a body that would be read as a block. The two texts are
the same unless the body starts with a brace: no body of a parsed function does, and one that is
built does if an object stands at its start, but is not the whole of it.
-/

namespace ExprScript

open Reader Scanner

/-! ## How a text begins -/

def BeginsApart (text : String) : Prop := text.toList.head?.any (· != '\x7b') = true

instance (text : String) : Decidable (BeginsApart text) := inferInstanceAs (Decidable (_ = true))

namespace BeginsApart

variable {text : String}

theorem of_toList {c : Char} {chars : List Char} (equal : text.toList = c :: chars)
    (notBrace : c ≠ '\x7b') : BeginsApart text := by
  simpa [BeginsApart, equal] using notBrace

theorem append (apart : BeginsApart text) (other : String) : BeginsApart (text ++ other) := by
  unfold BeginsApart at *
  rw [String.toList_append]
  cases chars : text.toList with
  | nil =>
      rw [chars] at apart
      cases apart
  | cons c rest => rwa [chars] at apart

theorem startsWith (apart : BeginsApart text) : startsWith text '\x7b' = false := by
  unfold BeginsApart at apart
  unfold ExprScript.startsWith
  cases chars : text.toList with
  | nil => rfl
  | cons c rest =>
      rw [chars] at apart
      simpa using apart

theorem group {needed : Bool} (apart : needed = false → BeginsApart text) :
    BeginsApart (group needed text) := by
  cases needed with
  | false => exact apart rfl
  | true => exact .append (.append (by decide) _) _

theorem operandOr {level : Nat} {expr : Expr} (other : Bool) (some : Precedence.sequence < level)
    (apart : Precedence.sequence < expr.precedence → BeginsApart expr.print) :
    BeginsApart (ExprScript.group (other || expr.precedence < level) expr.print) := by
  apply group
  intro bare
  have tight := of_decide_eq_false (Bool.or_eq_false_iff.mp bare).2
  exact apart (Nat.lt_of_lt_of_le some (Nat.not_lt.mp tight))

theorem operand {level : Nat} {expr : Expr} (some : Precedence.sequence < level)
    (apart : Precedence.sequence < expr.precedence → BeginsApart expr.print) :
    BeginsApart (ExprScript.group (expr.precedence < level) expr.print) :=
  operandOr false some apart

theorem name {chars : String} (isName : NameText chars.toList) : BeginsApart chars := by
  cases equal : chars.toList with
  | nil =>
      rw [equal] at isName
      exact isName.elim
  | cons c rest =>
      rw [equal] at isName
      exact of_toList equal (ne_of_isNameStart isName.1 (by decide))

theorem number {number : Float} (plain : Number.Plain number) :
    BeginsApart (Number.print number) := by
  cases finite : number.isInf with
  | true =>
      have text : Number.print number = "1 / 0" := by
        rw [Number.print, plain.not_isNaN, finite, plain.not_hasSign]
        rfl
      rw [text]
      decide
  | false =>
      rcases Number.print_denotes plain finite (Number.readsBack plain finite) with
        ⟨whole, fraction, exponent, form, text, -⟩
      cases whole with
      | nil => exact absurd rfl form.notEmpty
      | cons c whole =>
          apply of_toList text
          rintro rfl
          cases form.wholeDigits _ (List.mem_cons_self ..)

end BeginsApart

theorem Precedence.sequence_lt_nullishOr : sequence < nullishOr := by decide

/-- What binds more tightly than a sequence begins apart, unless an object stands at its start. -/
theorem Expr.beginsApart : ∀ expr : Expr, expr.Everywhere grammatical →
    Precedence.sequence < expr.precedence → expr.opensBrace = false → BeginsApart expr.print
  | .null _, _, _, _ => by
      rw [Expr.print]
      decide
  | .this _, _, _, _ => by
      rw [Expr.print]
      decide
  | .boolean _ value, _, _, _ => by
      rw [Expr.print]
      cases value <;> decide
  | .number _, ⟨⟨_, lexical⟩, _⟩, _, _ => .number (NumberLiteral.Read.plain lexical)
  | .string literal, _, _, _ => by
      rw [Expr.print]
      exact .of_toList (String.toList_ofList ..) (by decide)
  | .regExp _ _ _, _, _, _ => by
      rw [Expr.print]
      exact .append (.append (.append (by decide) _) _) _
  | .template _ _ _, _, _, _ => by
      rw [Expr.print]
      exact .append (.append (by decide) _) _
  | .ident _, ⟨⟨_, lexical⟩, _⟩, _, _ => .name (Ident.Read.nameText lexical).1
  | .array _ _, _, _, _ => by
      rw [Expr.print]
      exact .append (.append (.append (by decide) _) _) _
  | .object _ _, _, _, opens => nomatch opens
  | .paren _ _, _, _, _ => by
      rw [Expr.print]
      exact .append (.append (by decide) _) _
  | .arrow _ _ _, _, _, _ => by
      rw [Expr.print]
      exact .append (.append (.append (by decide) _) _) _
  | .unary _ op _, _, _, _ => by
      rw [Expr.print]
      exact .append (.append (by cases op <;> decide) _) _
  | .update _ op .before _, _, _, _ => by
      rw [Expr.print]
      exact .append (by cases op <;> decide) _
  | .update _ _ .after argument, ⟨_, inside⟩, _, opens => by
      rw [Expr.print]
      exact .append (.operand (by decide) fun tight => argument.beginsApart inside tight opens) _
  | .binary _ op left _, ⟨_, inside, _⟩, _, opens => by
      have apart := fun tight => left.beginsApart inside tight opens
      rw [Expr.print]
      split
      · exact .append (.append (.append (.append (.operand (by decide) apart) _) _) _) _
      · have some := Nat.lt_of_lt_of_le Precedence.sequence_lt_nullishOr op.nullishOr_le
        exact .append (.append (.append (.append (.operand some apart) _) _) _) _
  | .logical _ op left _, ⟨_, inside, _⟩, _, opens => by
      have apart := fun tight => left.beginsApart inside tight opens
      have some := Nat.lt_of_lt_of_le Precedence.sequence_lt_nullishOr op.nullishOr_le
      rw [Expr.print]
      exact .append (.append (.append (.append (.operandOr _ some apart) _) _) _) _
  | .conditional _ test _ _, ⟨_, inside, _⟩, _, opens => by
      rw [Expr.print]
      refine .append (.append (.append (.append (.operand (by decide) ?_) _) _) _) _
      exact fun tight => test.beginsApart inside tight opens
  | .assign _ op target value, ⟨_, inside, _⟩, _, opens => by
      rw [Expr.print]
      refine .append (.append (.append (.append (.operand (by decide) ?_) _) _) _) _
      exact fun tight => target.beginsApart inside tight opens
  | .destructure _ _ pattern value, ⟨⟨⟨_, composite, _⟩, _⟩, _⟩, _, opens => by
      rw [Expr.print]
      refine .append (.append (.append (.append ?_ _) _) _) _
      cases pattern with
      | array =>
          rw [Pattern.print]
          exact .append (.append (.append (by decide) _) _) _
      | object => cases opens
      | _ => cases composite
  | .sequence _ _, _, tight, _ => absurd tight (Nat.lt_irrefl _)
  | .member _ owner key _, ⟨_, inside, _⟩, _, opens => by
      have apart := fun tight => owner.beginsApart inside tight opens
      cases key with
      | name id =>
          rw [Expr.print_member_name]
          exact .append (.append (.operandOr _ (by decide) apart) _) _
      | computed key =>
          rw [Expr.print_member_computed]
          exact .append (.append (.append (.append (.operand (by decide) apart) _) _) _) _
  | .call _ callee _ _, ⟨_, inside, _⟩, _, opens => by
      rw [Expr.print]
      refine .append (.append (.append (.operand (by decide) ?_) _) _) _
      exact fun tight => callee.beginsApart inside tight opens
  | .new _ _ _, _, _, _ => by
      rw [Expr.print]
      exact .append (.append (.append (.append (by decide) _) _) _) _
  | .tagged _ tag _ _ _, ⟨_, inside, _⟩, _, opens => by
      have apart := fun tight => tag.beginsApart inside tight opens
      rw [Expr.print]
      exact .append (.operandOr _ (by decide) apart) _
  | .spread _ _, _, _, _ => by
      rw [Expr.print]
      exact .append (by decide) _

/-! ## The text of a function and the text of its node -/

theorem printPatterns_eq_map (params : List Pattern) :
    printPatterns params = params.map Pattern.print := by
  induction params with
  | nil => rfl
  | cons param params induction => rw [printPatterns, induction, List.map_cons]

theorem eq_group_iff (text : String) (needed : Bool) :
    text = group needed text ↔ needed = false := by
  constructor
  · intro same
    have length := congrArg String.length same
    cases needed with
    | false => rfl
    | true =>
        rw [group, if_pos rfl, String.length_append, String.length_append] at length
        change text.length = 1 + text.length + 1 at length
        omega
  · rintro rfl
    rfl

/-- If the body needs no parentheses as an operand, then the printer adds some only in front of a
brace. -/
theorem sourceText_eq_print_iff {closure : Closure} (name : String) (constructible : Bool)
    (tight : Precedence.assignment ≤ closure.body.precedence) (loc : Span) :
    ({ name, constructible, body := .arrow closure } : FunctionValue).sourceText =
        (Expr.arrow loc closure.params closure.body).print ↔
      startsWith closure.body.print '\x7b' = false := by
  rw [Expr.print, Expr.group_tight tight, printPatterns_eq_map, FunctionValue.sourceText]
  exact (String.append_right_inj _).trans (eq_group_iff _ _)

namespace Eval

/-- An arrow function evaluates to a function with its parameters and its body. -/
theorem eval_arrow (context : Context) (use : Use) (path : Path) (loc : Span)
    (params : List Pattern) (body : Expr) (world : World) :
    ∃ ref after, eval context use path (.arrow loc params body) world =
        .ok (plain (.function ref)) after ∧
      after.heap.function ref =
        { name := ""
          constructible := false
          body := .arrow
            { tree := context.tree, path, params, body, scope := context.scope } } := by
  let closure : Closure :=
    { tree := context.tree, path, params, body, scope := context.scope }
  let created := world.heap.newFunction
    { name := "", body := .arrow closure, constructible := false }
  have run : eval context use path (.arrow loc params body) world =
      .ok (plain (.function created.1)) { world with heap := created.2 } := by
    rw [eval]
    rfl
  exact ⟨_, _, run, (Heap.function_newFunction _ _ _).trans (if_pos rfl)⟩

/-- Wherever the expression is evaluated, its value is a function, and the text of the function is
the text of the expression. -/
def ShownAsPrinted (expr : Expr) : Prop :=
  ∀ context use path world, ∃ ref after,
    eval context use path expr world = .ok (plain (.function ref)) after ∧
      after.heap.toText (.function ref) = expr.print

theorem shownAsPrinted_iff {params : List Pattern} {body : Expr}
    (tight : Precedence.assignment ≤ body.precedence) (loc : Span) :
    ShownAsPrinted (.arrow loc params body) ↔ startsWith body.print '\x7b' = false := by
  have text : ∀ context use path world, ∃ ref after,
      eval context use path (.arrow loc params body) world = .ok (plain (.function ref)) after ∧
        (after.heap.toText (.function ref) = (Expr.arrow loc params body).print ↔
          startsWith body.print '\x7b' = false) := by
    intro context use path world
    rcases eval_arrow context use path loc params body world with ⟨ref, after, run, function⟩
    refine ⟨ref, after, run, ?_⟩
    rw [Heap.toText, Heap.textWithin, function]
    exact sourceText_eq_print_iff "" false tight loc
  constructor
  · intro shown
    let context : Context :=
      { call := fun _ _ _ => throw .exhausted, scope := { inner := ⟨0⟩ }, useMemo := false
        tree := 0 }
    rcases shown context .value [] {} with ⟨ref, after, run, same⟩
    rcases text context .value [] {} with ⟨ref', after', run', agrees⟩
    cases run.symm.trans run'
    exact agrees.mp same
  · intro apart context use path world
    rcases text context use path world with ⟨ref, after, run, agrees⟩
    exact ⟨ref, after, run, agrees.mpr apart⟩

end Eval

theorem parse_print_arrow {loc : Span} {params : List Pattern} {body : Expr}
    (holds : (Expr.arrow loc params body).Everywhere writable) :
    ∃ loc' params' body',
      parse (Expr.arrow loc params body).print = .ok (.arrow loc' params' body') := by
  have operand : (Expr.arrow loc params body).Operand Precedence.sequence :=
    ⟨rfl, .inl (Expr.sequence_le_precedence _)⟩
  rcases parse_print holds operand with ⟨found, parsed, same, -⟩
  rw [Expr.canonical, Expr.erase] at same
  cases found with
  | arrow loc' params' body' => exact ⟨loc', params', body', parsed⟩
  | _ =>
      rw [Expr.erase] at same
      cases same

theorem Expr.Operand.assignment_le {expr : Expr} (operand : expr.Operand Precedence.assignment) :
    Precedence.assignment ≤ expr.precedence := by
  rcases operand.fits with tight | infinite
  · exact tight
  · cases expr with
    | number literal =>
        simp only [Expr.precedence, Number.precedence]
        split
        · decide
        · split <;> decide
    | _ => cases infinite

theorem shownAsPrinted_of_grammatical {loc : Span} {params : List Pattern} {body : Expr}
    (holds : (Expr.arrow loc params body).Grammatical) :
    Eval.ShownAsPrinted (.arrow loc params body) := by
  rcases holds with ⟨⟨⟨-, operand⟩, apart⟩, -, inside⟩
  have tight := operand.assignment_le
  have some : Precedence.sequence < Precedence.assignment := by decide
  apply (Eval.shownAsPrinted_iff tight loc).mpr
  exact (body.beginsApart inside (Nat.lt_of_lt_of_le some tight) apart).startsWith

namespace Build

variable {params : List Pattern} {body expr : Expr}

theorem arrow_eq_ok (built : arrow params body = .ok expr) : expr = .arrow {} params
    (if body.kind == .objectExpression then parenthesized body else item body) := by
  rw [arrow] at built
  split at built
  · cases built
  · rcases except_bind_ok built with ⟨⟨⟩, -, result⟩
    cases result
    rfl

theorem shownAsPrinted_arrow_iff (built : arrow params body = .ok expr) :
    Eval.ShownAsPrinted expr ↔ body.kind = .objectExpression ∨
      body.precedence < Precedence.assignment ∨ startsWith body.print '\x7b' = false := by
  rw [arrow_eq_ok built]
  have enclosed : Eval.ShownAsPrinted (.arrow {} params (parenthesized body)) := by
    have tight : Precedence.assignment ≤ (parenthesized body).precedence :=
      Precedence.assignment_le_primary
    rw [Eval.shownAsPrinted_iff tight, parenthesized, Expr.print]
    exact BeginsApart.startsWith (.append (.append (by decide) _) _)
  by_cases isObject : body.kind = .objectExpression
  · rw [if_pos (beq_iff_eq.mpr isObject)]
    exact iff_of_true enclosed (.inl isObject)
  · rw [if_neg (fun same => isObject (beq_iff_eq.mp same)), item, operand]
    by_cases loose : body.precedence < Precedence.assignment
    · rw [if_pos (decide_eq_true loose)]
      exact iff_of_true enclosed (.inr (.inl loose))
    · rw [if_neg (fun holds => loose (of_decide_eq_true holds)),
        Eval.shownAsPrinted_iff (Nat.not_lt.mp loose)]
      simp [isObject, loose]

end Build

namespace Eval

/-- Every function of a parsed text is shown as it is printed, and if its keys are finite, the text
is parsed to a function again. A function that is built is shown as it is printed exactly if its
body does not start with a brace, or is enclosed when it is built: objects are, and so are
sequences. What is printed is parsed to a function if its words are read again. -/
theorem function_shownAsPrinted (params : List Pattern) (body : Expr) :
    (∀ source strict whole loc, parse source strict = .ok whole →
      whole.Contains (.arrow loc params body) →
        ShownAsPrinted (.arrow loc params body) ∧
        ((Expr.arrow loc params body).Everywhere finiteKeys → ∃ loc' params' body',
          parse (Expr.arrow loc params body).print = .ok (.arrow loc' params' body'))) ∧
    ∀ expr, Build.arrow params body = .ok expr →
      (ShownAsPrinted expr ↔ body.kind = .objectExpression ∨
        body.precedence < Precedence.assignment ∨ startsWith body.print '\x7b' = false) ∧
      (expr.Everywhere writable → ∃ loc' params' body',
        parse expr.print = .ok (.arrow loc' params' body')) := by
  constructor
  · intro source strict whole loc parsed contains
    have grammatical : (Expr.arrow loc params body).Grammatical :=
      contains _ (parse_grammatical parsed).1
    refine ⟨shownAsPrinted_of_grammatical grammatical, fun finite => ?_⟩
    exact parse_print_arrow (grammatical.writable finite)
  · intro expr built
    refine ⟨Build.shownAsPrinted_arrow_iff built, fun holds => ?_⟩
    rw [Build.arrow_eq_ok built] at holds ⊢
    exact parse_print_arrow holds

def passesFunction : Expr → Bool
  | .call _ _ [.arrow loc params body, _] _ =>
    decide ((Expr.arrow loc params body).Everywhere finiteKeys)
  | _ => false

/-- A function inside of a call, and one whose body is an object. -/
theorem function_shownAsPrinted_samples : ∃ whole loc params body expr,
    parse "map(x => (\x7b 1e21: x \x7d).y, [1])" = .ok whole ∧
      whole.Contains (.arrow loc params body) ∧ (Expr.arrow loc params body).Everywhere finiteKeys ∧
      Build.arrow [] (Build.object []) = .ok expr ∧ expr.Everywhere writable ∧
      (ShownAsPrinted (.arrow loc params body) ∧ ∃ loc' params' body',
        parse (Expr.arrow loc params body).print = .ok (.arrow loc' params' body')) ∧
      ShownAsPrinted expr ∧ ∃ loc' params' body',
        parse expr.print = .ok (.arrow loc' params' body') := by
  have parses : (parse "map(x => (\x7b 1e21: x \x7d).y, [1])").toOption.any
      passesFunction = true := by
    decide +kernel
  rcases exists_ok_of_any parses with ⟨expr, parsed, passes⟩
  unfold passesFunction at passes
  split at passes
  · next loc callee place params body other optional =>
      have contains : (Expr.call loc callee [.arrow place params body, other] optional).Contains
          (.arrow place params body) := fun _ holds => holds.2.2.1
      have finite := of_decide_eq_true passes
      have built : Build.arrow [] (Build.object []) =
          .ok (.arrow {} [] (.paren {} (.object {} []))) := rfl
      have holds : (Expr.arrow {} [] (.paren {} (.object {} []))).Everywhere writable :=
        (Build.Built.arrow (List.forall_mem_nil _)
          (.object (List.forall_mem_nil _) (List.forall_mem_nil _)) built).faithful.writable
      have parsedCase := (function_shownAsPrinted params body).1 _ _ _ _ parsed contains
      have builtCase := (function_shownAsPrinted [] (Build.object [])).2 _ built
      exact ⟨_, _, _, _, _, parsed, contains, finite, built, holds,
        ⟨parsedCase.1, parsedCase.2 finite⟩, builtCase.1.mpr (.inl rfl), builtCase.2 holds⟩
  · cases passes

/-- The body is a member of an object: the function is printed as `() => (\x7b\x7d.x)`, but its text
is `() => \x7b\x7d.x`, and this is no function. -/
theorem not_shownAsPrinted_member : ∃ body expr ref after,
    Build.member (Build.object []) "x" false = .ok body ∧ Build.arrow [] body = .ok expr ∧
      ¬ ShownAsPrinted expr ∧ expr.print = "() => (\x7b\x7d.x)" ∧
      evaluate Library.host 0 expr { inner := ⟨0⟩ } false {} = .ok (.function ref) after ∧
      after.heap.toText (.function ref) = "() => \x7b\x7d.x" ∧
      ¬ ∃ found, parse "() => \x7b\x7d.x" = .ok found := by
  have accepted : Build.isPropertyName "x" = true := by decide +kernel
  have fails : (parse "() => \x7b\x7d.x").isOk = false := by decide +kernel
  let body : Expr := .member {} (Build.object []) (.name { name := "x" }) false
  have member : Build.member (Build.object []) "x" false = .ok body := if_pos accepted
  have built : Build.arrow [] body = .ok (.arrow {} [] body) := rfl
  refine ⟨_, _, _, _, member, built, ?_, by decide +kernel, rfl, by decide +kernel, ?_⟩
  · intro shown
    rcases (Build.shownAsPrinted_arrow_iff built).mp shown with isObject | loose | apart
    · cases isObject
    · exact absurd loose (by decide)
    · exact absurd apart (by decide +kernel)
  · rintro ⟨found, parsed⟩
    rw [parsed] at fails
    cases fails

end Eval

end ExprScript
