import ExprScript.Proofs.Number.Plain
import ExprScript.Proofs.Tree.Erase
import ExprScript.Proofs.Tree.WellFormed

/-! # Trees with the parentheses that are printed

Where the printer adds parentheses, the canonical tree has a node for them; its
numbers are written as they are printed, and an infinite number is the division
that it is printed as.
-/

namespace ExprScript

def Expr.grouped (needed : Bool) (expr : Expr) : Expr :=
  if needed then .paren {} expr else expr

def NumberLiteral.respelled (literal : NumberLiteral) : NumberLiteral :=
  { literal with raw := Number.print literal.value }

/-- An infinite number is printed as a division. -/
def NumberLiteral.canonical (literal : NumberLiteral) : Expr :=
  if literal.value.isInf then
    .binary {} (.arithmetic .div) (.number { value := 1.0, raw := "1" })
      (.number { value := 0.0, raw := "0" })
  else .number literal.respelled

def Expr.isNumber : Expr → Bool
  | .number _ => true
  | _ => false

mutual

/-- The tree with a node for every pair of parentheses that is printed. -/
def Expr.canonical : Expr → Expr
  | .null loc => .null loc
  | .boolean loc value => .boolean loc value
  | .number literal => literal.canonical
  | .string literal => .string literal
  | .regExp loc pattern flags => .regExp loc pattern flags
  | .template loc quasis holes => .template loc quasis (canonicalHoles holes)
  | .ident id => .ident id
  | .this loc => .this loc
  | .array loc elements => .array loc (canonicalElements elements)
  | .object loc properties => .object loc (canonicalProperties properties)
  | .paren loc inner => .paren loc inner.canonical
  | .arrow loc params body =>
    let inner := body.canonical.grouped (body.precedence < Precedence.assignment)
    .arrow loc (canonicalPatterns params) (inner.grouped (startsWith inner.print '\x7b'))
  | .unary loc op argument =>
    .unary loc op (argument.canonical.grouped (argument.precedence < Precedence.unary))
  | .update loc op .before argument =>
    .update loc op .before (argument.canonical.grouped (argument.precedence < Precedence.unary))
  | .update loc op .after argument =>
    .update loc op .after (argument.canonical.grouped (argument.precedence < Precedence.call))
  | .binary loc op left right =>
    if op = .arithmetic .exp then
      .binary loc op (left.canonical.grouped (left.precedence < Precedence.postfixed))
        (right.canonical.grouped (right.precedence < op.precedence))
    else
      .binary loc op (left.canonical.grouped (left.precedence < op.precedence))
        (right.canonical.grouped (right.precedence < op.precedence + 1))
  | .logical loc op left right =>
    .logical loc op
      (left.canonical.grouped (op.conflictsWith left || left.precedence < op.precedence))
      (right.canonical.grouped (op.conflictsWith right || right.precedence < op.precedence + 1))
  | .conditional loc test consequent alternate =>
    .conditional loc (test.canonical.grouped (test.precedence < Precedence.nullishOr))
      (consequent.canonical.grouped (consequent.precedence < Precedence.assignment))
      (alternate.canonical.grouped (alternate.precedence < Precedence.assignment))
  | .assign loc op target value =>
    .assign loc op (target.canonical.grouped (target.precedence < Precedence.call))
      (value.canonical.grouped (value.precedence < Precedence.assignment))
  | .destructure loc op pattern value =>
    .destructure loc op pattern.canonical
      (value.canonical.grouped (value.precedence < Precedence.assignment))
  | .sequence loc items => .sequence loc (canonicalItems items)
  | .member loc owner key optional =>
    match key with
    | .name id =>
      .member loc
        (owner.canonical.grouped (owner.isNumber || owner.precedence < Precedence.call))
        (.name id) optional
    | .computed key =>
      .member loc (owner.canonical.grouped (owner.precedence < Precedence.call))
        (.computed key.canonical) optional
  | .call loc callee arguments optional =>
    .call loc (callee.canonical.grouped (callee.precedence < Precedence.call))
      (canonicalItems arguments) optional
  | .new loc callee arguments =>
    .new loc
      (callee.canonical.grouped (callee.callsBeforeNew || callee.precedence < Precedence.call))
      (canonicalItems arguments)
  | .tagged loc tag templateLoc quasis holes =>
    .tagged loc (tag.canonical.grouped (tag.isOptionalChain || tag.precedence < Precedence.call))
      templateLoc quasis (canonicalHoles holes)
  | .spread loc argument =>
    .spread loc (argument.canonical.grouped (argument.precedence < Precedence.assignment))

def canonicalHoles : List Expr → List Expr
  | [] => []
  | hole :: holes => hole.canonical :: canonicalHoles holes

def canonicalItems : List Expr → List Expr
  | [] => []
  | item :: items =>
    item.canonical.grouped (item.precedence < Precedence.assignment) :: canonicalItems items

def canonicalElements : List (Option Expr) → List (Option Expr)
  | [] => []
  | none :: elements => none :: canonicalElements elements
  | some item :: elements =>
    some (item.canonical.grouped (item.precedence < Precedence.assignment)) ::
      canonicalElements elements

def canonicalProperties : List Property → List Property
  | [] => []
  | .spread loc argument :: properties =>
    .spread loc (argument.canonical.grouped (argument.precedence < Precedence.assignment)) ::
      canonicalProperties properties
  | .field loc key value shorthand :: properties =>
    .field loc key.canonical
      (value.canonical.grouped (value.precedence < Precedence.assignment)) shorthand ::
      canonicalProperties properties

def PropertyKey.canonical : PropertyKey → PropertyKey
  | .name id => .name id
  | .string literal => .string literal
  | .number literal => .number literal.respelled
  | .computed key =>
    .computed (key.canonical.grouped (key.precedence < Precedence.assignment))

def Pattern.canonical : Pattern → Pattern
  | .ident id => .ident id
  | .array loc elements => .array loc (canonicalPatternElements elements)
  | .object loc properties => .object loc (canonicalPatternProperties properties)
  | .rest loc argument => .rest loc argument.canonical
  | .withDefault loc target value =>
    .withDefault loc target.canonical
      (value.canonical.grouped (value.precedence < Precedence.assignment))

def canonicalPatterns : List Pattern → List Pattern
  | [] => []
  | pattern :: patterns => pattern.canonical :: canonicalPatterns patterns

def canonicalPatternElements : List (Option Pattern) → List (Option Pattern)
  | [] => []
  | none :: elements => none :: canonicalPatternElements elements
  | some pattern :: elements => some pattern.canonical :: canonicalPatternElements elements

def canonicalPatternProperties : List PatternProperty → List PatternProperty
  | [] => []
  | .rest loc argument :: properties =>
    .rest loc argument.canonical :: canonicalPatternProperties properties
  | .field loc key value shorthand :: properties =>
    .field loc key.canonical value.canonical shorthand :: canonicalPatternProperties properties

end

/-! ## What a place demands -/

namespace Expr

theorem print_member_name (loc : Span) (owner : Expr) (id : Ident) (optional : Bool) :
    (Expr.member loc owner (.name id) optional).print =
      group (owner.isNumber || owner.precedence < Precedence.call) owner.print ++
        (if optional then "?." else ".") ++ id.name := by
  cases owner <;> simp only [Expr.print, isNumber]

theorem print_member_computed (loc : Span) (owner key : Expr) (optional : Bool) :
    (Expr.member loc owner (.computed key) optional).print =
      group (owner.precedence < Precedence.call) owner.print ++
        (if optional then "?." else "") ++ "[" ++ key.print ++ "]" := by
  rw [Expr.print]

theorem not_isFinite_of_isInf {number : Float} (infinite : number.isInf = true) :
    number.isFinite = false := by
  by_contra finite
  rw [Number.not_isInf (Bool.not_eq_false _ ▸ finite)] at infinite
  cases infinite

attribute [local simp] canonical

@[simp] theorem precedence_canonical (expr : Expr) : expr.canonical.precedence = expr.precedence := by
  cases expr with
  | number literal =>
      rw [canonical, NumberLiteral.canonical]
      split
      · next infinite =>
          simp [precedence, Number.precedence, not_isFinite_of_isInf infinite,
            BinaryOp.precedence, ArithmeticOp.precedence]
      · rfl
  | update loc op fixity argument => cases fixity <;> simp [precedence]
  | binary loc op left right =>
      rw [canonical]
      split <;> rfl
  | member loc owner key optional => cases key <;> simp [precedence]
  | _ => simp [precedence]

@[simp] theorem isSpread_canonical (expr : Expr) : expr.canonical.isSpread = expr.isSpread := by
  cases expr with
  | number literal =>
      rw [canonical, NumberLiteral.canonical]
      split <;> rfl
  | update loc op fixity argument => cases fixity <;> simp [isSpread]
  | binary loc op left right =>
      rw [canonical]
      split <;> rfl
  | member loc owner key optional => cases key <;> simp [isSpread]
  | _ => simp [isSpread]

/-- A property that parentheses hide is kept if they are not added to an
expression that has it. -/
theorem grouped_keeps {flag : Expr → Bool} (paren : ∀ loc inner, flag (.paren loc inner) = false)
    {expr : Expr} {needed : Bool} (hidden : needed = true → flag expr = false)
    (same : flag expr.canonical = flag expr) :
    flag (expr.canonical.grouped needed) = flag expr := by
  cases needed with
  | false => exact same
  | true => rw [grouped, if_pos rfl, paren, hidden rfl]

theorem isOptionalChain_of_grouped {expr : Expr}
    (needed : (expr.isNumber || decide (expr.precedence < Precedence.call)) = true) :
    expr.isOptionalChain = false := by
  cases expr with
  | member => simp [isNumber, precedence] at needed
  | call => simp [isNumber, precedence] at needed
  | _ => rfl

theorem callsBeforeNew_of_grouped {expr : Expr}
    (needed : (expr.isNumber || decide (expr.precedence < Precedence.call)) = true) :
    expr.callsBeforeNew = false := by
  cases expr with
  | member => simp [isNumber, precedence] at needed
  | call => simp [isNumber, precedence] at needed
  | tagged => simp [isNumber, precedence] at needed
  | _ => rfl

@[simp] theorem isOptionalChain_canonical : ∀ expr : Expr,
    expr.canonical.isOptionalChain = expr.isOptionalChain
  | .member loc owner key optional => by
      have kept := @grouped_keeps isOptionalChain (fun _ _ => rfl) owner
      have same := owner.isOptionalChain_canonical
      cases key with
      | name id =>
          rw [canonical, isOptionalChain, kept isOptionalChain_of_grouped same, isOptionalChain]
      | computed key =>
          have hidden : decide (owner.precedence < Precedence.call) = true →
              owner.isOptionalChain = false :=
            fun weak => isOptionalChain_of_grouped (by simp [weak])
          rw [canonical, isOptionalChain, kept hidden same, isOptionalChain]
  | .call loc callee arguments optional => by
      have hidden : decide (callee.precedence < Precedence.call) = true →
          callee.isOptionalChain = false :=
        fun weak => isOptionalChain_of_grouped (by simp [weak])
      rw [canonical, isOptionalChain, isOptionalChain,
        grouped_keeps (fun _ _ => rfl) hidden callee.isOptionalChain_canonical]
  | .number literal => by
      rw [canonical, NumberLiteral.canonical]
      split <;> rfl
  | .update _ _ fixity _ => by cases fixity <;> simp only [canonical, isOptionalChain]
  | .binary _ op _ _ => by
      rw [canonical]
      split <;> rfl
  | .null _ | .boolean _ _ | .string _ | .regExp _ _ _ | .template _ _ _ | .ident _ | .this _
  | .array _ _ | .object _ _ | .paren _ _ | .arrow _ _ _ | .unary _ _ _ | .logical _ _ _ _
  | .conditional _ _ _ _ | .assign _ _ _ _ | .destructure _ _ _ _ | .sequence _ _ | .new _ _ _
  | .tagged _ _ _ _ _ | .spread _ _ => by simp only [canonical, isOptionalChain]

@[simp] theorem callsBeforeNew_canonical : ∀ expr : Expr,
    expr.canonical.callsBeforeNew = expr.callsBeforeNew
  | .member loc owner key optional => by
      have kept := @grouped_keeps callsBeforeNew (fun _ _ => rfl) owner
      have same := owner.callsBeforeNew_canonical
      cases key with
      | name id =>
          rw [canonical, callsBeforeNew, kept callsBeforeNew_of_grouped same, callsBeforeNew]
      | computed key =>
          have hidden : decide (owner.precedence < Precedence.call) = true →
              owner.callsBeforeNew = false :=
            fun weak => callsBeforeNew_of_grouped (by simp [weak])
          rw [canonical, callsBeforeNew, kept hidden same, callsBeforeNew]
  | .number literal => by
      rw [canonical, NumberLiteral.canonical]
      split <;> rfl
  | .update _ _ fixity _ => by cases fixity <;> simp only [canonical, callsBeforeNew]
  | .binary _ op _ _ => by
      rw [canonical]
      split <;> rfl
  | .null _ | .boolean _ _ | .string _ | .regExp _ _ _ | .template _ _ _ | .ident _ | .this _
  | .array _ _ | .object _ _ | .paren _ _ | .arrow _ _ _ | .unary _ _ _ | .logical _ _ _ _
  | .conditional _ _ _ _ | .assign _ _ _ _ | .destructure _ _ _ _ | .sequence _ _ | .call _ _ _ _
  | .new _ _ _ | .tagged _ _ _ _ _ | .spread _ _ => by simp only [canonical, callsBeforeNew]

/-- Parentheses are not added to what can be assigned to, but they would not
matter. -/
theorem isSimpleTarget_canonical : ∀ {expr : Expr}, expr.isSimpleTarget = true →
    expr.canonical.isSimpleTarget = true
  | .ident _, simple => simple
  | .paren _ inner, simple => @isSimpleTarget_canonical inner simple
  | .member loc owner key optional, simple => by
      have chain := (Expr.member loc owner key optional).isOptionalChain_canonical
      cases key with
      | name id =>
          rw [canonical] at chain ⊢
          rw [isSimpleTarget, chain]
          exact simple
      | computed key =>
          rw [canonical] at chain ⊢
          rw [isSimpleTarget, chain]
          exact simple

theorem conflictsWith_canonical (op : LogicalOp) (expr : Expr) :
    op.conflictsWith expr.canonical = op.conflictsWith expr := by
  cases expr with
  | number literal =>
      rw [canonical, NumberLiteral.canonical]
      split <;> rfl
  | update loc op fixity argument => cases fixity <;> simp [LogicalOp.conflictsWith]
  | binary loc op left right =>
      rw [canonical]
      split <;> rfl
  | member loc owner key optional =>
      cases key <;> simp [LogicalOp.conflictsWith]
  | _ => simp [LogicalOp.conflictsWith]

end Expr

/-! ## Places that demand parentheses -/

/-- A place that demands parentheses of some operands, but never of operands that
have them. -/
structure Demand (demands : Expr → Bool) : Prop where
  paren : ∀ loc inner, demands (.paren loc inner) = false
  canonical : ∀ expr, demands expr.canonical = demands expr

namespace Demand

theorem level (level : Nat) (bound : level ≤ Precedence.primary) :
    Demand fun expr => decide (expr.precedence < level) where
  paren _ _ := decide_eq_false (Nat.not_lt.mpr bound)
  canonical _ := by simp

theorem item : Demand fun expr => decide (expr.precedence < Precedence.assignment) :=
  level _ (by decide)

theorem operand : Demand fun expr => decide (expr.precedence < Precedence.unary) :=
  level _ (by decide)

theorem chain : Demand fun expr => decide (expr.precedence < Precedence.call) :=
  level _ (by decide)

theorem logical (op : LogicalOp) (level : Nat) (bound : level ≤ Precedence.primary) :
    Demand fun expr => op.conflictsWith expr || decide (expr.precedence < level) where
  paren _ _ := decide_eq_false (Nat.not_lt.mpr bound)
  canonical _ := by simp [Expr.conflictsWith_canonical]

theorem new : Demand fun expr =>
    expr.callsBeforeNew || decide (expr.precedence < Precedence.call) where
  paren _ _ := rfl
  canonical _ := by simp

theorem tag : Demand fun expr =>
    expr.isOptionalChain || decide (expr.precedence < Precedence.call) where
  paren _ _ := rfl
  canonical _ := by simp

theorem owner : Demand fun expr =>
    expr.isNumber || decide (expr.precedence < Precedence.call) where
  paren _ _ := rfl
  canonical expr := by
    cases expr with
    | number literal =>
        rw [Expr.canonical, NumberLiteral.canonical]
        split <;> rfl
    | update loc op fixity argument => cases fixity <;> rw [Expr.canonical] <;> rfl
    | binary loc op left right =>
        rw [Expr.canonical]
        split <;> rfl
    | member loc owner key optional => cases key <;> rw [Expr.canonical] <;> rfl
    | _ => rw [Expr.canonical] <;> rfl

variable {demands : Expr → Bool} (demand : Demand demands)

include demand

theorem met (expr : Expr) : demands (expr.canonical.grouped (demands expr)) = false := by
  cases needed : demands expr with
  | false => exact (demand.canonical expr).trans needed
  | true => exact demand.paren _ _

theorem grouped {expr : Expr} (met : demands expr = false) (needed : Bool) :
    demands (expr.grouped needed) = false := by
  cases needed with
  | false => exact met
  | true => exact demand.paren _ _

theorem print (expr : Expr) (same : expr.canonical.print = expr.print) :
    group (demands (expr.canonical.grouped (demands expr)))
      (expr.canonical.grouped (demands expr)).print = group (demands expr) expr.print := by
  rw [demand.met, group, if_neg (by simp)]
  cases demands expr with
  | false => exact same
  | true => rw [Expr.grouped, if_pos rfl, Expr.print, same, group, if_pos rfl]

end Demand

/-! ## The canonical tree is printed like the tree -/

def plainNumbers : Condition where
  expr expr := ∀ literal, expr = .number literal → Number.Plain literal.value
  pattern _ := True

theorem NumberLiteral.print_canonical {literal : NumberLiteral}
    (plain : Number.Plain literal.value) : literal.canonical.print = Number.print literal.value := by
  rw [NumberLiteral.canonical]
  split
  · next infinite =>
      rw [Number.print, plain.not_isNaN, infinite, plain.not_hasSign]
      change _ = "1 / 0"
      decide
  · rw [Expr.print]
    rfl

theorem BinaryOp.precedence_le (op : BinaryOp) : op.precedence + 1 ≤ Precedence.primary := by
  cases op with
  | arithmetic op => cases op <;> decide
  | _ => decide

theorem LogicalOp.precedence_le (op : LogicalOp) : op.precedence + 1 ≤ Precedence.primary := by
  cases op <;> decide

theorem endsInHole_cons {α : Type} (first : Option α) (elements : List (Option α)) :
    endsInHole (first :: elements) =
      if elements.isEmpty then first.isNone else endsInHole elements := by
  cases elements with
  | nil => cases first <;> rfl
  | cons second elements => rfl

theorem isEmpty_canonicalElements (elements : List (Option Expr)) :
    (canonicalElements elements).isEmpty = elements.isEmpty := by
  cases elements with
  | nil => rfl
  | cons element elements => cases element <;> simp only [canonicalElements, List.isEmpty_cons]

theorem endsInHole_canonicalElements (elements : List (Option Expr)) :
    endsInHole (canonicalElements elements) = endsInHole elements := by
  induction elements with
  | nil => rfl
  | cons element elements induction =>
      cases element with
      | none =>
          rw [canonicalElements, endsInHole_cons, endsInHole_cons, isEmpty_canonicalElements,
            induction]
      | some item =>
          rw [canonicalElements, endsInHole_cons, endsInHole_cons, isEmpty_canonicalElements,
            induction]
          rfl

theorem isEmpty_canonicalPatternElements (elements : List (Option Pattern)) :
    (canonicalPatternElements elements).isEmpty = elements.isEmpty := by
  cases elements with
  | nil => rfl
  | cons element elements =>
      cases element <;> simp only [canonicalPatternElements, List.isEmpty_cons]

theorem endsInHole_canonicalPatternElements (elements : List (Option Pattern)) :
    endsInHole (canonicalPatternElements elements) = endsInHole elements := by
  induction elements with
  | nil => rfl
  | cons element elements induction =>
      cases element with
      | none =>
          rw [canonicalPatternElements, endsInHole_cons, endsInHole_cons,
            isEmpty_canonicalPatternElements, induction]
      | some pattern =>
          rw [canonicalPatternElements, endsInHole_cons, endsInHole_cons,
            isEmpty_canonicalPatternElements, induction]
          rfl

@[simp] theorem group_false (text : String) : group false text = text := rfl

theorem Expr.print_grouped (needed : Bool) (expr : Expr) :
    (expr.grouped needed).print = group needed expr.print := by
  cases needed with
  | false => rfl
  | true => rw [Expr.grouped, if_pos rfl, Expr.print, group, if_pos rfl]

theorem startsWith_group (text : String) :
    startsWith (group (startsWith text '\x7b') text) '\x7b' = false := by
  cases starts : startsWith text '\x7b' with
  | false => exact starts
  | true => simp [group, startsWith]

mutual

theorem Expr.print_canonical : ∀ expr : Expr, expr.Everywhere plainNumbers →
    expr.canonical.print = expr.print
  | .null _, _ | .boolean _ _, _ | .string _, _ | .regExp _ _ _, _ | .ident _, _ | .this _, _ => by
      simp only [Expr.canonical]
  | .number literal, ⟨plain, _⟩ => by
      rw [Expr.canonical, Expr.print, literal.print_canonical (plain literal rfl)]
  | .template _ quasis holes, ⟨_, inside⟩ => by
      simp only [Expr.canonical, Expr.print, printHoles_canonical holes inside]
  | .array _ elements, ⟨_, inside⟩ => by
      simp only [Expr.canonical, Expr.print, printElements_canonical elements inside,
        endsInHole_canonicalElements]
  | .object _ properties, ⟨_, inside⟩ => by
      simp only [Expr.canonical, Expr.print, printProperties_canonical properties inside]
  | .paren _ inner, ⟨_, inside⟩ => by
      simp only [Expr.canonical, Expr.print, inner.print_canonical inside]
  | .arrow _ params body, ⟨_, inside, inside'⟩ => by
      have same := Demand.item.print body (body.print_canonical inside')
      have met := Demand.item.met body
      simp only [Expr.canonical, Expr.print, printPatterns_canonical params inside]
      generalize body.canonical.grouped _ = inner at same met ⊢
      rw [met] at same
      simp only [Demand.item.grouped met, Expr.print_grouped, ← same, group_false, startsWith_group]
  | .unary _ op argument, ⟨_, inside⟩ => by
      have same := argument.print_canonical inside
      simp only [Expr.canonical, Expr.print, Demand.operand.print argument same]
  | .update _ op fixity argument, ⟨_, inside⟩ => by
      have same := argument.print_canonical inside
      cases fixity with
      | before =>
          simp only [Expr.canonical, Expr.print, Demand.operand.print argument same]
      | after =>
          simp only [Expr.canonical, Expr.print, Demand.chain.print argument same]
  | .binary _ op left right, ⟨_, inside, inside'⟩ => by
      have first := left.print_canonical inside
      have second := right.print_canonical inside'
      have bound := op.precedence_le
      rw [Expr.canonical, Expr.print]
      split
      · next isExp =>
          simp only [Expr.print, isExp, if_true, (Demand.level Precedence.postfixed (by decide)).print left first,
            (Demand.level (BinaryOp.precedence (.arithmetic .exp)) (by decide)).print right second]
      · next notExp =>
          simp only [Expr.print, notExp, if_false, (Demand.level op.precedence (by omega)).print left first,
            (Demand.level (op.precedence + 1) bound).print right second]
  | .logical _ op left right, ⟨_, inside, inside'⟩ => by
      have first := left.print_canonical inside
      have second := right.print_canonical inside'
      have bound := op.precedence_le
      simp only [Expr.canonical, Expr.print, (Demand.logical op op.precedence (by omega)).print left first,
        (Demand.logical op (op.precedence + 1) bound).print right second]
  | .conditional _ test consequent alternate, ⟨_, inside, inside', inside''⟩ => by
      have first := test.print_canonical inside
      have second := consequent.print_canonical inside'
      have third := alternate.print_canonical inside''
      simp only [Expr.canonical, Expr.print, (Demand.level Precedence.nullishOr (by decide)).print test first,
        Demand.item.print consequent second,
        Demand.item.print alternate third]
  | .assign _ op target value, ⟨_, inside, inside'⟩ => by
      have first := target.print_canonical inside
      have second := value.print_canonical inside'
      simp only [Expr.canonical, Expr.print, Demand.chain.print target first,
        Demand.item.print value second]
  | .destructure _ _ pattern value, ⟨_, inside, inside'⟩ => by
      have second := value.print_canonical inside'
      simp only [Expr.canonical, Expr.print, pattern.print_canonical inside,
        Demand.item.print value second]
  | .sequence _ items, ⟨_, inside⟩ => by
      simp only [Expr.canonical, Expr.print, printItems_canonical items inside]
  | .member _ owner key optional, ⟨_, inside, inside'⟩ => by
      have same := owner.print_canonical inside
      cases key with
      | name id =>
          rw [Expr.canonical, Expr.print_member_name, Demand.owner.print owner same,
            Expr.print_member_name]
      | computed key =>
          rw [Expr.canonical, Expr.print_member_computed, Demand.chain.print owner same,
            Expr.print_member_computed, key.print_canonical inside']
  | .call _ callee arguments optional, ⟨_, inside, inside'⟩ => by
      have same := callee.print_canonical inside
      simp only [Expr.canonical, Expr.print, Demand.chain.print callee same,
        printItems_canonical arguments inside']
  | .new _ callee arguments, ⟨_, inside, inside'⟩ => by
      have same := callee.print_canonical inside
      simp only [Expr.canonical, Expr.print, Demand.new.print callee same,
        printItems_canonical arguments inside']
  | .tagged _ tag _ quasis holes, ⟨_, inside, inside'⟩ => by
      have same := tag.print_canonical inside
      simp only [Expr.canonical, Expr.print, Demand.tag.print tag same, printHoles_canonical holes inside']
  | .spread _ argument, ⟨_, inside⟩ => by
      have same := argument.print_canonical inside
      simp only [Expr.canonical, Expr.print, Demand.item.print argument same]

theorem printHoles_canonical : ∀ holes : List Expr, itemsInside plainNumbers holes →
    printHoles (canonicalHoles holes) = printHoles holes
  | [], _ => rfl
  | hole :: holes, ⟨inside, inside'⟩ => by
      simp only [canonicalHoles, printHoles, hole.print_canonical inside,
        printHoles_canonical holes inside']

theorem printItems_canonical : ∀ items : List Expr, itemsInside plainNumbers items →
    printItems (canonicalItems items) = printItems items
  | [], _ => rfl
  | item :: items, ⟨inside, inside'⟩ => by
      have same := item.print_canonical inside
      simp only [canonicalItems, printItems, printItems_canonical items inside',
        Demand.item.print item same]

theorem printElements_canonical : ∀ elements : List (Option Expr),
    elementsInside plainNumbers elements →
      printElements (canonicalElements elements) = printElements elements
  | [], _ => rfl
  | none :: elements, inside => by
      simp only [canonicalElements, printElements, printElements_canonical elements inside]
  | some item :: elements, ⟨inside, inside'⟩ => by
      have same := item.print_canonical inside
      simp only [canonicalElements, printElements, printElements_canonical elements inside',
        Demand.item.print item same]

theorem printProperties_canonical : ∀ properties : List Property,
    propertiesInside plainNumbers properties →
      printProperties (canonicalProperties properties) = printProperties properties
  | [], _ => rfl
  | .spread _ argument :: properties, ⟨inside, inside'⟩ => by
      have same := argument.print_canonical inside
      simp only [canonicalProperties, printProperties, Demand.item.print argument same,
        printProperties_canonical properties inside']
  | .field _ key value shorthand :: properties, ⟨⟨keyInside, inside⟩, inside'⟩ => by
      have same := value.print_canonical inside
      simp only [canonicalProperties, printProperties, Demand.item.print value same,
        key.print_canonical keyInside, printProperties_canonical properties inside']

theorem PropertyKey.print_canonical : ∀ key : PropertyKey, key.Inside plainNumbers →
    key.canonical.print = key.print
  | .name _, _ | .string _, _ => by simp only [PropertyKey.canonical]
  | .number _, _ => by simp only [PropertyKey.canonical, PropertyKey.print, NumberLiteral.respelled]
  | .computed key, inside => by
      have same := key.print_canonical inside
      simp only [PropertyKey.canonical, PropertyKey.print, Demand.item.print key same]

theorem Pattern.print_canonical : ∀ pattern : Pattern, pattern.Everywhere plainNumbers →
    pattern.canonical.print = pattern.print
  | .ident _, _ => by simp only [Pattern.canonical]
  | .array _ elements, ⟨_, inside⟩ => by
      simp only [Pattern.canonical, Pattern.print, printPatternElements_canonical elements inside,
        endsInHole_canonicalPatternElements]
  | .object _ properties, ⟨_, inside⟩ => by
      simp only [Pattern.canonical, Pattern.print,
        printPatternProperties_canonical properties inside]
  | .rest _ argument, ⟨_, inside⟩ => by
      simp only [Pattern.canonical, Pattern.print, argument.print_canonical inside]
  | .withDefault _ target value, ⟨_, inside, inside'⟩ => by
      have same := value.print_canonical inside'
      simp only [Pattern.canonical, Pattern.print, target.print_canonical inside,
        Demand.item.print value same]

theorem printPatterns_canonical : ∀ patterns : List Pattern,
    patternsInside plainNumbers patterns →
      printPatterns (canonicalPatterns patterns) = printPatterns patterns
  | [], _ => rfl
  | pattern :: patterns, ⟨inside, inside'⟩ => by
      simp only [canonicalPatterns, printPatterns, pattern.print_canonical inside,
        printPatterns_canonical patterns inside']

theorem printPatternElements_canonical : ∀ elements : List (Option Pattern),
    patternElementsInside plainNumbers elements →
      printPatternElements (canonicalPatternElements elements) = printPatternElements elements
  | [], _ => rfl
  | none :: elements, inside => by
      simp only [canonicalPatternElements, printPatternElements,
        printPatternElements_canonical elements inside]
  | some pattern :: elements, ⟨inside, inside'⟩ => by
      simp only [canonicalPatternElements, printPatternElements, pattern.print_canonical inside,
        printPatternElements_canonical elements inside']

theorem printPatternProperties_canonical : ∀ properties : List PatternProperty,
    patternPropertiesInside plainNumbers properties →
      printPatternProperties (canonicalPatternProperties properties) =
        printPatternProperties properties
  | [], _ => rfl
  | .rest _ argument :: properties, ⟨inside, inside'⟩ => by
      simp only [canonicalPatternProperties, printPatternProperties,
        argument.print_canonical inside, printPatternProperties_canonical properties inside']
  | .field _ key value shorthand :: properties, ⟨⟨keyInside, inside⟩, inside'⟩ => by
      simp only [canonicalPatternProperties, printPatternProperties, value.print_canonical inside,
        key.print_canonical keyInside, printPatternProperties_canonical properties inside']

end

end ExprScript
