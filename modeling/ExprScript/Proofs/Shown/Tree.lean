import ExprScript.Proofs.Number.Shortest
import ExprScript.Proofs.Shell.Literal

/-! # The tree that a text shows

What can be seen of a tree in its text: the places are gone, the parentheses that are
printed are nodes, and a number that has no literal is the operation that it is printed as.
The body of a function stays without parentheses, because a program can read the text of the
body alone.
-/

namespace ExprScript

/-! ## Numbers -/

namespace NumberLiteral

/-- A literal as it is printed. -/
def written (value : Float) : NumberLiteral := { value, raw := Number.print value }

def overZero (dividend : Expr) : Expr :=
  .binary {} (.arithmetic .div) dividend (.number (written 0.0))

/-- The expression that a number is printed as. A zero is printed without its sign, so the
text does not show the negative one, which stays as it is. -/
def shown (literal : NumberLiteral) : Expr :=
  if literal.value.isNaN then overZero (.number (written 0.0))
  else if literal.value.isInf then
    if Number.hasSign literal.value then overZero (.unary {} .minus (.number (written 1.0)))
    else overZero (.number (written 1.0))
  else if Number.isNegative literal.value then
    .unary {} .minus (.number (Number.literal literal.value))
  else .number (written literal.value)

end NumberLiteral

mutual

def Expr.shown : Expr → Expr
  | .null _ => .null {}
  | .boolean _ value => .boolean {} value
  | .number literal => literal.shown
  | .string literal => .string literal.erase
  | .regExp _ pattern flags => .regExp {} pattern flags
  | .template _ quasis holes => .template {} (quasis.map Quasi.erase) (shownHoles holes)
  | .ident id => .ident id.erase
  | .this _ => .this {}
  | .array _ elements => .array {} (shownElements elements)
  | .object _ properties => .object {} (shownProperties properties)
  | .paren _ inner => .paren {} inner.shown
  | .arrow _ params body => .arrow {} (shownPatterns params) body.shown
  | .unary _ op argument =>
    .unary {} op (argument.shown.grouped (argument.precedence < Precedence.unary))
  | .update _ op .before argument =>
    .update {} op .before (argument.shown.grouped (argument.precedence < Precedence.unary))
  | .update _ op .after argument =>
    .update {} op .after (argument.shown.grouped (argument.precedence < Precedence.call))
  | .binary _ op left right =>
    if op = .arithmetic .exp then
      .binary {} op (left.shown.grouped (left.precedence < Precedence.postfixed))
        (right.shown.grouped (right.precedence < op.precedence))
    else
      .binary {} op (left.shown.grouped (left.precedence < op.precedence))
        (right.shown.grouped (right.precedence < op.precedence + 1))
  | .logical _ op left right =>
    .logical {} op
      (left.shown.grouped (op.conflictsWith left || left.precedence < op.precedence))
      (right.shown.grouped (op.conflictsWith right || right.precedence < op.precedence + 1))
  | .conditional _ test consequent alternate =>
    .conditional {} (test.shown.grouped (test.precedence < Precedence.nullishOr))
      (consequent.shown.grouped (consequent.precedence < Precedence.assignment))
      (alternate.shown.grouped (alternate.precedence < Precedence.assignment))
  | .assign _ op target value =>
    .assign {} op (target.shown.grouped (target.precedence < Precedence.call))
      (value.shown.grouped (value.precedence < Precedence.assignment))
  | .destructure _ op pattern value =>
    .destructure {} op pattern.shown
      (value.shown.grouped (value.precedence < Precedence.assignment))
  | .sequence _ items => .sequence {} (shownItems items)
  | .member _ owner key optional =>
    match key with
    | .name id =>
      .member {} (owner.shown.grouped (owner.isNumber || owner.precedence < Precedence.call))
        (.name id.erase) optional
    | .computed key =>
      .member {} (owner.shown.grouped (owner.precedence < Precedence.call))
        (.computed key.shown) optional
  | .call _ callee arguments optional =>
    .call {} (callee.shown.grouped (callee.precedence < Precedence.call)) (shownItems arguments)
      optional
  | .new _ callee arguments =>
    .new {} (callee.shown.grouped (callee.callsBeforeNew || callee.precedence < Precedence.call))
      (shownItems arguments)
  | .tagged _ tag _ quasis holes =>
    .tagged {} (tag.shown.grouped (tag.isOptionalChain || tag.precedence < Precedence.call)) {}
      (quasis.map Quasi.erase) (shownHoles holes)
  | .spread _ argument =>
    .spread {} (argument.shown.grouped (argument.precedence < Precedence.assignment))

def shownHoles : List Expr → List Expr
  | [] => []
  | hole :: holes => hole.shown :: shownHoles holes

def shownItems : List Expr → List Expr
  | [] => []
  | item :: items =>
    item.shown.grouped (item.precedence < Precedence.assignment) :: shownItems items

def shownElements : List (Option Expr) → List (Option Expr)
  | [] => []
  | none :: elements => none :: shownElements elements
  | some item :: elements =>
    some (item.shown.grouped (item.precedence < Precedence.assignment)) :: shownElements elements

def shownProperties : List Property → List Property
  | [] => []
  | .spread _ argument :: properties =>
    .spread {} (argument.shown.grouped (argument.precedence < Precedence.assignment)) ::
      shownProperties properties
  | .field _ key value shorthand :: properties =>
    .field {} key.shown (value.shown.grouped (value.precedence < Precedence.assignment))
      shorthand :: shownProperties properties

def PropertyKey.shown : PropertyKey → PropertyKey
  | .name id => .name id.erase
  | .string literal => .string literal.erase
  | .number literal => .number (.written literal.value)
  | .computed key => .computed (key.shown.grouped (key.precedence < Precedence.assignment))

def Pattern.shown : Pattern → Pattern
  | .ident id => .ident id.erase
  | .array _ elements => .array {} (shownPatternElements elements)
  | .object _ properties => .object {} (shownPatternProperties properties)
  | .rest _ argument => .rest {} argument.shown
  | .withDefault _ target value =>
    .withDefault {} target.shown
      (value.shown.grouped (value.precedence < Precedence.assignment))

def shownPatterns : List Pattern → List Pattern
  | [] => []
  | pattern :: patterns => pattern.shown :: shownPatterns patterns

def shownPatternElements : List (Option Pattern) → List (Option Pattern)
  | [] => []
  | none :: elements => none :: shownPatternElements elements
  | some pattern :: elements => some pattern.shown :: shownPatternElements elements

def shownPatternProperties : List PatternProperty → List PatternProperty
  | [] => []
  | .rest _ argument :: properties =>
    .rest {} argument.shown :: shownPatternProperties properties
  | .field _ key value shorthand :: properties =>
    .field {} key.shown value.shown shorthand :: shownPatternProperties properties

end

/-! ## How numbers bind -/

namespace Number

theorem isFinite_of_not {value : Float} (number : value.isNaN = false)
    (finite : value.isInf = false) : value.isFinite = true := by
  simp only [Float.isFinite, Float.isInf, Float.isNaN, Float.Model.isFinite, Float.Model.isInf,
    Float.Model.isNaN] at *
  generalize value.toModel.unpack = form at number finite
  cases form with
  | notANumber => cases number
  | infinity => cases finite
  | zero | finite => rfl

theorem hasSign_of_isNegative {value : Float} (negative : isNegative value = true) :
    hasSign value = true := by
  rw [isNegative, Bool.and_eq_true] at negative
  exact negative.1

inductive Shown (value : Float) : Expr → Prop
  | nan (holds : value.isNaN = true) :
      Shown value (NumberLiteral.overZero (.number (.written 0.0)))
  | infinite (holds : value.isNaN = false) (infinite : value.isInf = true)
      (positive : hasSign value = false) :
      Shown value (NumberLiteral.overZero (.number (.written 1.0)))
  | negativeInfinite (holds : value.isNaN = false) (infinite : value.isInf = true)
      (negative : hasSign value = true) :
      Shown value (NumberLiteral.overZero (.unary {} .minus (.number (.written 1.0))))
  | negative (finite : value.isFinite = true) (negative : isNegative value = true) :
      Shown value (.unary {} .minus (.number (literal value)))
  | literal (finite : value.isFinite = true) (positive : isNegative value = false) :
      Shown value (.number (.written value))

end Number

namespace NumberLiteral

theorem shown_cases (literal : NumberLiteral) : Number.Shown literal.value literal.shown := by
  unfold shown
  split
  · next isNaN => exact .nan isNaN
  · next number =>
      have number := Bool.eq_false_iff.mpr number
      split
      · next infinite =>
          split
          · next negative => exact .negativeInfinite number infinite negative
          · next positive => exact .infinite number infinite (Bool.eq_false_iff.mpr positive)
      · next bounded =>
          have finite := Number.isFinite_of_not number (Bool.eq_false_iff.mpr bounded)
          split
          · next negative => exact .negative finite negative
          · next positive => exact .literal finite (Bool.eq_false_iff.mpr positive)

theorem precedence_shown (literal : NumberLiteral) :
    literal.shown.precedence = Number.precedence literal.value := by
  have unbounded : literal.value.isNaN = true ∨ literal.value.isInf = true →
      Number.precedence literal.value = Precedence.multiplicative := by
    intro special
    have notFinite : literal.value.isFinite = false := by
      by_contra finite
      rw [Bool.not_eq_false] at finite
      rcases special with isNaN | infinite
      · rw [Number.not_isNaN finite] at isNaN
        cases isNaN
      · rw [Number.not_isInf finite] at infinite
        cases infinite
    rw [Number.precedence, notFinite]
    rfl
  have cases := literal.shown_cases
  generalize literal.shown = expr at cases ⊢
  cases cases with
  | nan holds => exact (unbounded (.inl holds)).symm
  | infinite _ infinite => exact (unbounded (.inr infinite)).symm
  | negativeInfinite _ infinite => exact (unbounded (.inr infinite)).symm
  | negative finite negative =>
      rw [Number.precedence, finite, Number.hasSign_of_isNegative negative]
      rfl
  | literal => rfl

theorem print_shown (literal : NumberLiteral) :
    literal.shown.print = Number.print literal.value := by
  have cases := literal.shown_cases
  generalize literal.shown = expr at cases ⊢
  cases cases with
  | nan holds =>
      rw [Number.print, holds]
      change _ = "0 / 0"
      decide
  | infinite number infinite positive =>
      rw [Number.print, number, infinite, positive]
      change _ = "1 / 0"
      decide
  | negativeInfinite number infinite negative =>
      rw [Number.print, number, infinite, negative]
      change _ = "-1 / 0"
      decide
  | negative finite negative =>
      have text := Number.print_toExpr finite
      rw [Number.toExpr, if_pos negative] at text
      rw [text, Number.print, Number.not_isNaN finite, Number.not_isInf finite]
      rfl
  | literal => rw [Expr.print]; rfl

theorem flag_shown {flag : Expr → Bool} (number : ∀ literal, flag (.number literal) = false)
    (unary : ∀ loc op argument, flag (.unary loc op argument) = false)
    (binary : ∀ loc op left right, flag (.binary loc op left right) = false)
    (literal : NumberLiteral) : flag literal.shown = false := by
  have cases := literal.shown_cases
  generalize literal.shown = expr at cases ⊢
  cases cases with
  | nan | infinite | negativeInfinite => exact binary _ _ _ _
  | negative => exact unary _ _ _
  | literal => exact number _

end NumberLiteral

/-! ## What a place demands -/

namespace Expr

@[simp] theorem precedence_shown (expr : Expr) : expr.shown.precedence = expr.precedence := by
  cases expr with
  | number literal => exact literal.precedence_shown
  | update loc op fixity argument => cases fixity <;> simp [shown, precedence]
  | binary loc op left right =>
      rw [shown]
      split <;> rfl
  | member loc owner key optional => cases key <;> simp [shown, precedence]
  | _ => simp [shown, precedence]

@[simp] theorem isSpread_shown (expr : Expr) : expr.shown.isSpread = expr.isSpread := by
  cases expr with
  | number literal => exact literal.flag_shown (fun _ => rfl) (fun _ _ _ => rfl) fun _ _ _ _ => rfl
  | update loc op fixity argument => cases fixity <;> simp [shown, isSpread]
  | binary loc op left right =>
      rw [shown]
      split <;> rfl
  | member loc owner key optional => cases key <;> simp [shown, isSpread]
  | _ => simp [shown, isSpread]

/-- A property that parentheses hide is kept if they are not added to an
expression that has it. -/
theorem flag_grouped {flag : Expr → Bool} (paren : ∀ loc inner, flag (.paren loc inner) = false)
    {expr : Expr} {needed : Bool} (hidden : needed = true → flag expr = false)
    (same : flag expr.shown = flag expr) : flag (expr.shown.grouped needed) = flag expr := by
  cases needed with
  | false => exact same
  | true => rw [grouped, if_pos rfl, paren, hidden rfl]

@[simp] theorem isOptionalChain_shown : ∀ expr : Expr,
    expr.shown.isOptionalChain = expr.isOptionalChain
  | .member loc owner key optional => by
      have kept := @flag_grouped isOptionalChain (fun _ _ => rfl) owner
      have same := owner.isOptionalChain_shown
      cases key with
      | name id =>
          rw [shown, isOptionalChain, kept isOptionalChain_of_grouped same, isOptionalChain]
      | computed key =>
          have hidden : decide (owner.precedence < Precedence.call) = true →
              owner.isOptionalChain = false :=
            fun weak => isOptionalChain_of_grouped (by simp [weak])
          rw [shown, isOptionalChain, kept hidden same, isOptionalChain]
  | .call loc callee arguments optional => by
      have hidden : decide (callee.precedence < Precedence.call) = true →
          callee.isOptionalChain = false :=
        fun weak => isOptionalChain_of_grouped (by simp [weak])
      rw [shown, isOptionalChain, isOptionalChain,
        flag_grouped (fun _ _ => rfl) hidden callee.isOptionalChain_shown]
  | .number literal => literal.flag_shown (fun _ => rfl) (fun _ _ _ => rfl) fun _ _ _ _ => rfl
  | .update _ _ fixity _ => by cases fixity <;> simp only [shown, isOptionalChain]
  | .binary _ op _ _ => by
      rw [shown]
      split <;> rfl
  | .null _ | .boolean _ _ | .string _ | .regExp _ _ _ | .template _ _ _ | .ident _ | .this _
  | .array _ _ | .object _ _ | .paren _ _ | .arrow _ _ _ | .unary _ _ _ | .logical _ _ _ _
  | .conditional _ _ _ _ | .assign _ _ _ _ | .destructure _ _ _ _ | .sequence _ _ | .new _ _ _
  | .tagged _ _ _ _ _ | .spread _ _ => by simp only [shown, isOptionalChain]

@[simp] theorem callsBeforeNew_shown : ∀ expr : Expr,
    expr.shown.callsBeforeNew = expr.callsBeforeNew
  | .member loc owner key optional => by
      have kept := @flag_grouped callsBeforeNew (fun _ _ => rfl) owner
      have same := owner.callsBeforeNew_shown
      cases key with
      | name id => rw [shown, callsBeforeNew, kept callsBeforeNew_of_grouped same, callsBeforeNew]
      | computed key =>
          have hidden : decide (owner.precedence < Precedence.call) = true →
              owner.callsBeforeNew = false :=
            fun weak => callsBeforeNew_of_grouped (by simp [weak])
          rw [shown, callsBeforeNew, kept hidden same, callsBeforeNew]
  | .number literal => literal.flag_shown (fun _ => rfl) (fun _ _ _ => rfl) fun _ _ _ _ => rfl
  | .update _ _ fixity _ => by cases fixity <;> simp only [shown, callsBeforeNew]
  | .binary _ op _ _ => by
      rw [shown]
      split <;> rfl
  | .null _ | .boolean _ _ | .string _ | .regExp _ _ _ | .template _ _ _ | .ident _ | .this _
  | .array _ _ | .object _ _ | .paren _ _ | .arrow _ _ _ | .unary _ _ _ | .logical _ _ _ _
  | .conditional _ _ _ _ | .assign _ _ _ _ | .destructure _ _ _ _ | .sequence _ _ | .call _ _ _ _
  | .new _ _ _ | .tagged _ _ _ _ _ | .spread _ _ => by simp only [shown, callsBeforeNew]

theorem conflictsWith_shown (op : LogicalOp) (expr : Expr) :
    op.conflictsWith expr.shown = op.conflictsWith expr := by
  cases expr with
  | number literal => exact literal.flag_shown (fun _ => rfl) (fun _ _ _ => rfl) fun _ _ _ _ => rfl
  | update loc op fixity argument => cases fixity <;> simp [shown, LogicalOp.conflictsWith]
  | binary loc op left right =>
      rw [shown]
      split <;> rfl
  | member loc owner key optional => cases key <;> simp [shown, LogicalOp.conflictsWith]
  | _ => simp [shown, LogicalOp.conflictsWith]

/-- The object of a name takes the same parentheses, also where it is a number that is shown
as an operation. -/
theorem ownerDemand_shown (expr : Expr) :
    (expr.shown.isNumber || decide (expr.shown.precedence < Precedence.call)) =
      (expr.isNumber || decide (expr.precedence < Precedence.call)) := by
  cases expr with
  | number literal =>
      have cases := literal.shown_cases
      rw [shown]
      generalize literal.shown = expr at cases ⊢
      cases cases <;> rfl
  | update loc op fixity argument => cases fixity <;> rfl
  | binary loc op left right =>
      rw [shown]
      split <;> rfl
  | member loc owner key optional => cases key <;> rfl
  | _ => rfl

end Expr

/-- A place that demands the same parentheses of an operand as of what its text shows, but
never of operands that have them. -/
structure Slot (demands : Expr → Bool) : Prop extends Demand demands where
  shown : ∀ expr : Expr, demands expr.shown = demands expr

namespace Slot

theorem level (level : Nat) (bound : level ≤ Precedence.primary) :
    Slot fun expr => decide (expr.precedence < level) :=
  ⟨.level level bound, fun _ => by simp⟩

theorem item : Slot fun expr => decide (expr.precedence < Precedence.assignment) :=
  level _ (by decide)

theorem operand : Slot fun expr => decide (expr.precedence < Precedence.unary) :=
  level _ (by decide)

theorem chain : Slot fun expr => decide (expr.precedence < Precedence.call) :=
  level _ (by decide)

theorem logical (op : LogicalOp) (level : Nat) (bound : level ≤ Precedence.primary) :
    Slot fun expr => op.conflictsWith expr || decide (expr.precedence < level) :=
  ⟨.logical op level bound, fun _ => by simp [Expr.conflictsWith_shown]⟩

theorem new : Slot fun expr =>
    expr.callsBeforeNew || decide (expr.precedence < Precedence.call) :=
  ⟨.new, fun _ => by simp⟩

theorem tag : Slot fun expr =>
    expr.isOptionalChain || decide (expr.precedence < Precedence.call) :=
  ⟨.tag, fun _ => by simp⟩

theorem owner : Slot fun expr =>
    expr.isNumber || decide (expr.precedence < Precedence.call) :=
  ⟨.owner, Expr.ownerDemand_shown⟩

variable {demands : Expr → Bool} (slot : Slot demands) {inner expr : Expr}

include slot

theorem alike (same : inner.shown = expr.shown) : demands inner = demands expr := by
  rw [← slot.shown inner, same, slot.shown expr]

theorem met (expr : Expr) : demands (expr.shown.grouped (demands expr)) = false := by
  cases needed : demands expr with
  | false => exact (slot.shown expr).trans needed
  | true => exact slot.paren _ _

theorem print (expr : Expr) (same : expr.shown.print = expr.print) :
    group (demands (expr.shown.grouped (demands expr)))
      (expr.shown.grouped (demands expr)).print = group (demands expr) expr.print := by
  rw [slot.met, Expr.print_grouped, same]
  rfl

theorem regrouped (same : inner.shown = expr.shown) :
    (inner.grouped (demands expr)).shown.grouped (demands (inner.grouped (demands expr))) =
      expr.shown.grouped (demands expr) := by
  have alike := slot.alike same
  cases needed : demands expr with
  | false =>
      rw [needed] at alike
      change inner.shown.grouped (demands inner) = expr.shown
      rw [alike, same]
      rfl
  | true =>
      change (Expr.paren {} inner).shown.grouped (demands (.paren {} inner)) = .paren {} expr.shown
      rw [slot.paren, Expr.shown, same]
      rfl

theorem ungrouped (same : inner.shown = expr.shown) :
    inner.shown.grouped (demands inner) = expr.shown.grouped (demands expr) := by
  rw [slot.alike same, same]

end Slot

/-! ## The text shows the tree -/

theorem Quasi.map_raw_erase (quasis : List Quasi) :
    (quasis.map Quasi.erase).map (·.raw) = quasis.map (·.raw) := by
  rw [List.map_map]
  rfl

theorem isEmpty_shownElements (elements : List (Option Expr)) :
    (shownElements elements).isEmpty = elements.isEmpty := by
  cases elements with
  | nil => rfl
  | cons element elements => cases element <;> rfl

theorem endsInHole_shownElements (elements : List (Option Expr)) :
    endsInHole (shownElements elements) = endsInHole elements := by
  induction elements with
  | nil => rfl
  | cons element elements induction =>
      cases element with
      | none =>
          rw [shownElements, endsInHole_cons, endsInHole_cons, isEmpty_shownElements, induction]
      | some item =>
          rw [shownElements, endsInHole_cons, endsInHole_cons, isEmpty_shownElements, induction]
          rfl

theorem isEmpty_shownPatternElements (elements : List (Option Pattern)) :
    (shownPatternElements elements).isEmpty = elements.isEmpty := by
  cases elements with
  | nil => rfl
  | cons element elements => cases element <;> rfl

theorem endsInHole_shownPatternElements (elements : List (Option Pattern)) :
    endsInHole (shownPatternElements elements) = endsInHole elements := by
  induction elements with
  | nil => rfl
  | cons element elements induction =>
      cases element with
      | none =>
          rw [shownPatternElements, endsInHole_cons, endsInHole_cons, isEmpty_shownPatternElements,
            induction]
      | some pattern =>
          rw [shownPatternElements, endsInHole_cons, endsInHole_cons, isEmpty_shownPatternElements,
            induction]
          rfl

mutual

theorem Expr.print_shown : ∀ expr : Expr, expr.shown.print = expr.print
  | .null _ | .boolean _ _ | .string _ | .regExp _ _ _ | .ident _ | .this _ => rfl
  | .number literal => literal.print_shown
  | .template _ quasis holes => by
      simp only [Expr.shown, Expr.print, printHoles_shown holes, printTemplate,
        Quasi.map_raw_erase]
  | .array _ elements => by
      simp only [Expr.shown, Expr.print, printElements_shown elements, endsInHole_shownElements]
  | .object _ properties => by
      simp only [Expr.shown, Expr.print, printProperties_shown properties]
  | .paren _ inner => by
      simp only [Expr.shown, Expr.print, inner.print_shown]
  | .arrow _ params body => by
      simp only [Expr.shown, Expr.print, printPatterns_shown params, body.print_shown,
        Expr.precedence_shown]
  | .unary _ op argument => by
      simp only [Expr.shown, Expr.print, Slot.operand.print argument argument.print_shown]
  | .update _ op fixity argument => by
      have same := argument.print_shown
      cases fixity with
      | before => simp only [Expr.shown, Expr.print, Slot.operand.print argument same]
      | after => simp only [Expr.shown, Expr.print, Slot.chain.print argument same]
  | .binary _ op left right => by
      have first := left.print_shown
      have second := right.print_shown
      have bound := op.precedence_le
      rw [Expr.shown, Expr.print]
      split
      · next isExp =>
          simp only [Expr.print, isExp, if_true,
            (Slot.level Precedence.postfixed (by decide)).print left first,
            (Slot.level (BinaryOp.precedence (.arithmetic .exp)) (by decide)).print right second]
      · next notExp =>
          simp only [Expr.print, notExp, if_false,
            (Slot.level op.precedence (by omega)).print left first,
            (Slot.level (op.precedence + 1) bound).print right second]
  | .logical _ op left right => by
      have bound := op.precedence_le
      simp only [Expr.shown, Expr.print,
        (Slot.logical op op.precedence (by omega)).print left left.print_shown,
        (Slot.logical op (op.precedence + 1) bound).print right right.print_shown]
  | .conditional _ test consequent alternate => by
      simp only [Expr.shown, Expr.print,
        (Slot.level Precedence.nullishOr (by decide)).print test test.print_shown,
        Slot.item.print consequent consequent.print_shown,
        Slot.item.print alternate alternate.print_shown]
  | .assign _ op target value => by
      simp only [Expr.shown, Expr.print, Slot.chain.print target target.print_shown,
        Slot.item.print value value.print_shown]
  | .destructure _ _ pattern value => by
      simp only [Expr.shown, Expr.print, pattern.print_shown,
        Slot.item.print value value.print_shown]
  | .sequence _ items => by
      simp only [Expr.shown, Expr.print, printItems_shown items]
  | .member _ owner key optional => by
      have same := owner.print_shown
      cases key with
      | name id =>
          rw [Expr.shown, Expr.print_member_name, Slot.owner.print owner same,
            Expr.print_member_name]
          rfl
      | computed key =>
          rw [Expr.shown, Expr.print_member_computed, Slot.chain.print owner same,
            Expr.print_member_computed, key.print_shown]
  | .call _ callee arguments optional => by
      simp only [Expr.shown, Expr.print, Slot.chain.print callee callee.print_shown,
        printItems_shown arguments]
  | .new _ callee arguments => by
      simp only [Expr.shown, Expr.print, Slot.new.print callee callee.print_shown,
        printItems_shown arguments]
  | .tagged _ tag _ quasis holes => by
      simp only [Expr.shown, Expr.print, Slot.tag.print tag tag.print_shown,
        printHoles_shown holes, printTemplate, Quasi.map_raw_erase]
  | .spread _ argument => by
      simp only [Expr.shown, Expr.print, Slot.item.print argument argument.print_shown]

theorem printHoles_shown : ∀ holes : List Expr, printHoles (shownHoles holes) = printHoles holes
  | [] => rfl
  | hole :: holes => by
      simp only [shownHoles, printHoles, hole.print_shown, printHoles_shown holes]

theorem printItems_shown : ∀ items : List Expr, printItems (shownItems items) = printItems items
  | [] => rfl
  | item :: items => by
      simp only [shownItems, printItems, printItems_shown items,
        Slot.item.print item item.print_shown]

theorem printElements_shown : ∀ elements : List (Option Expr),
    printElements (shownElements elements) = printElements elements
  | [] => rfl
  | none :: elements => by
      simp only [shownElements, printElements, printElements_shown elements]
  | some item :: elements => by
      simp only [shownElements, printElements, printElements_shown elements,
        Slot.item.print item item.print_shown]

theorem printProperties_shown : ∀ properties : List Property,
    printProperties (shownProperties properties) = printProperties properties
  | [] => rfl
  | .spread _ argument :: properties => by
      simp only [shownProperties, printProperties, printProperties_shown properties,
        Slot.item.print argument argument.print_shown]
  | .field _ key value shorthand :: properties => by
      simp only [shownProperties, printProperties, printProperties_shown properties,
        key.print_shown, Slot.item.print value value.print_shown]

theorem PropertyKey.print_shown : ∀ key : PropertyKey, key.shown.print = key.print
  | .name _ | .string _ | .number _ => rfl
  | .computed key => by
      simp only [PropertyKey.shown, PropertyKey.print, Slot.item.print key key.print_shown]

theorem Pattern.print_shown : ∀ pattern : Pattern, pattern.shown.print = pattern.print
  | .ident _ => rfl
  | .array _ elements => by
      simp only [Pattern.shown, Pattern.print, printPatternElements_shown elements,
        endsInHole_shownPatternElements]
  | .object _ properties => by
      simp only [Pattern.shown, Pattern.print, printPatternProperties_shown properties]
  | .rest _ argument => by
      simp only [Pattern.shown, Pattern.print, argument.print_shown]
  | .withDefault _ target value => by
      simp only [Pattern.shown, Pattern.print, target.print_shown,
        Slot.item.print value value.print_shown]

theorem printPatterns_shown : ∀ patterns : List Pattern,
    printPatterns (shownPatterns patterns) = printPatterns patterns
  | [] => rfl
  | pattern :: patterns => by
      simp only [shownPatterns, printPatterns, pattern.print_shown, printPatterns_shown patterns]

theorem printPatternElements_shown : ∀ elements : List (Option Pattern),
    printPatternElements (shownPatternElements elements) = printPatternElements elements
  | [] => rfl
  | none :: elements => by
      simp only [shownPatternElements, printPatternElements, printPatternElements_shown elements]
  | some pattern :: elements => by
      simp only [shownPatternElements, printPatternElements, pattern.print_shown,
        printPatternElements_shown elements]

theorem printPatternProperties_shown : ∀ properties : List PatternProperty,
    printPatternProperties (shownPatternProperties properties) = printPatternProperties properties
  | [] => rfl
  | .rest _ argument :: properties => by
      simp only [shownPatternProperties, printPatternProperties, argument.print_shown,
        printPatternProperties_shown properties]
  | .field _ key value shorthand :: properties => by
      simp only [shownPatternProperties, printPatternProperties, value.print_shown,
        key.print_shown, printPatternProperties_shown properties]

end

end ExprScript
