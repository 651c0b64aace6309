import ExprScript.Proofs.Build.Tree
import ExprScript.Proofs.Number.Signed

/-! # Built trees are read again

The parentheses that are put in when a tree is built are those that the printer would
add and that the parser needs, so the text of the tree is parsed to the tree itself. Only
a body of a function that starts with a brace gets parentheses when it is printed.
-/

namespace ExprScript.Build

variable {place : Place} {level : Nat} {expr left right argument : Expr}

/-! ## Literals and names -/

theorem faithful_number {value : Float} (finite : value.isFinite = true)
    (positive : Number.hasSign value = false) : Faithful .operand (number value) := by
  have plain : Number.Plain value :=
    Number.abs_eq_self finite positive ▸ Number.plain_abs finite
  have notInfinite := Number.not_isInf finite
  have spelled : Number.print value = Number.toText value := by
    rw [Number.print, Number.not_isNaN finite, notInfinite]
    rfl
  constructor
  · exact ⟨⟨trivial, plain, Number.readsBack plain⟩, trivial⟩
  · rw [number, Expr.canonical, NumberLiteral.canonical, if_neg (by simp [notInfinite]),
      NumberLiteral.respelled, spelled]
    rfl
  · exact fun _ => rfl

theorem faithful_identifier {name : String} (plain : '\\' ∉ name.toList)
    (built : identifier name = .ok expr) : Faithful .operand expr := by
  rcases identifier_eq_ok built with ⟨accepted, rfl⟩
  exact ⟨⟨⟨trivial, legible_of_isIdentifier accepted plain⟩, trivial⟩, rfl, fun _ => rfl⟩

/-! ## Lists -/

theorem writable_items {items : List Expr} (holds : ∀ item ∈ items, Faithful place item) :
    itemsInside writable (items.map item) := by
  apply (itemsInside_iff _ _).mpr
  intro item member
  rcases List.mem_map.mp member with ⟨original, within, rfl⟩
  exact (holds original within).item.writable

theorem canonical_items {items : List Expr} (holds : ∀ item ∈ items, Faithful place item) :
    canonicalItems (items.map item) = enclosedItems (items.map item) := by
  rw [canonicalItems_eq_map, enclosedItems_eq_map]
  apply List.map_congr_left
  intro item member
  rcases List.mem_map.mp member with ⟨original, within, rfl⟩
  exact (holds original within).item.ungrouped

theorem writable_holes {holes : List Expr} (holds : ∀ hole ∈ holes, Faithful .operand hole) :
    itemsInside writable holes :=
  (itemsInside_iff _ _).mpr fun hole member => (holds hole member).writable

theorem canonical_holes {holes : List Expr} (holds : ∀ hole ∈ holes, Faithful .operand hole) :
    canonicalHoles holes = enclosedItems holes := by
  rw [canonicalHoles_eq_map, enclosedItems_eq_map]
  exact List.map_congr_left fun hole member => (holds hole member).canonical

theorem templateShape {pieces : List String} {holes : List Expr} {quasis : List Quasi}
    (built : templateQuasis pieces holes = .ok quasis)
    (holds : ∀ hole ∈ holes, Faithful .operand hole) : TemplateShape quasis holes ∧
      ∀ quasi ∈ quasis, Reader.TemplateText quasi.raw.toList quasi.cooked.toList := by
  rw [templateQuasis] at built
  split at built
  · next length =>
      cases built
      refine ⟨⟨tails_quasis length, fun hole member => ?_⟩, fun _ => templateText_of_quasis⟩
      exact ⟨(holds hole member).notSpread rfl, .inl hole.sequence_le_precedence⟩
  · cases built

theorem faithful_template {pieces : List String} {holes : List Expr}
    (holds : ∀ hole ∈ holes, Faithful .operand hole) (built : template pieces holes = .ok expr) :
    Faithful .operand expr := by
  rcases except_bind_ok built with ⟨quasis, found, result⟩
  cases result
  rcases templateShape found holds with ⟨shape, words⟩
  refine ⟨⟨⟨shape, words⟩, writable_holes holds⟩, ?_, fun _ => rfl⟩
  rw [Expr.canonical, canonical_holes holds]
  rfl

/-! ## Operators -/

theorem Faithful.parenthesized (inner : Faithful .operand expr) :
    Faithful .operand (parenthesized expr) := by
  have settled : Settled .operand Precedence.primary (Build.operand true expr) :=
    inner.operand (Nat.le_refl _) nofun
  exact settled.toFaithful

theorem Written.binary (first : Written .operand left) (second : Written .operand right)
    (op : BinaryOp) : Written .operand (binary op left right) := by
  have bound := op.precedence_le
  rw [Build.binary]
  split
  · next isPower =>
      have fitting := @Written.upTo Precedence.unary _ first (by decide)
      have fitting' := @Written.below Precedence.exponent _ second (by decide)
      refine ⟨⟨⟨?_, trivial⟩, fitting.writable, fitting'.writable⟩, fun _ => rfl⟩
      rw [Expr.Shape, if_pos isPower]
      exact ⟨fitting.powerBase, fitting'.operand⟩
  · next notPower =>
      have fitting := @Written.below op.precedence _ first (by omega)
      have fitting' := @Written.upTo op.precedence _ second bound
      refine ⟨⟨⟨?_, trivial⟩, fitting.writable, fitting'.writable⟩, fun _ => rfl⟩
      rw [Expr.Shape, if_neg notPower]
      exact ⟨fitting.operand, fitting'.operand⟩

theorem Faithful.binary (first : Faithful .operand left) (second : Faithful .operand right)
    (op : BinaryOp) : Faithful .operand (binary op left right) := by
  have bound := op.precedence_le
  have written := first.written.binary second.written op
  refine ⟨written.writable, ?_, written.notSpread⟩
  rw [Build.binary]
  split
  · next isPower =>
      have settled := @Faithful.upTo Precedence.unary _ first (by decide)
      have settled' := @Faithful.below Precedence.exponent _ second (by decide)
      have level : op.precedence = Precedence.exponent := by rw [isPower]; rfl
      rw [Expr.canonical, if_pos isPower, level, settled.ungrouped, settled'.ungrouped]
      rfl
  · next notPower =>
      have settled := @Faithful.below op.precedence _ first (by omega)
      have settled' := @Faithful.upTo op.precedence _ second bound
      rw [Expr.canonical, if_neg notPower, settled.ungrouped, settled'.ungrouped]
      rfl

theorem not_conflictsWith_operand (op : LogicalOp) (weak : Bool) (expr : Expr) :
    op.conflictsWith (operand (weak || op.conflictsWith expr) expr) = false := by
  cases conflicts : op.conflictsWith expr with
  | true =>
      rw [Bool.or_true]
      rfl
  | false =>
      cases weak with
      | true => rfl
      | false => exact conflicts

theorem Written.logicalLeft (written : Written .operand expr) (op : LogicalOp) :
    Fitting .operand op.precedence
      (Build.operand (expr.precedence < op.precedence || op.conflictsWith expr) expr) := by
  have bound := op.precedence_le
  exact written.operand (by omega) fun strong => by simp at strong; omega

theorem Written.logicalRight (written : Written .operand expr) (op : LogicalOp) :
    Fitting .operand (op.precedence + 1)
      (Build.operand (expr.precedence ≤ op.precedence || op.conflictsWith expr) expr) :=
  written.operand op.precedence_le fun strong => by simp at strong; omega

theorem Written.logical (first : Written .operand left) (second : Written .operand right)
    (op : LogicalOp) : Written .operand (logical op left right) := by
  have fitting := first.logicalLeft op
  have fitting' := second.logicalRight op
  have apart := not_conflictsWith_operand op (left.precedence < op.precedence) left
  have apart' := not_conflictsWith_operand op (right.precedence ≤ op.precedence) right
  exact ⟨⟨⟨⟨⟨fitting.operand, apart⟩, fitting'.operand, apart'⟩, trivial⟩, fitting.writable,
    fitting'.writable⟩, fun _ => rfl⟩

theorem Faithful.logical (first : Faithful .operand left) (second : Faithful .operand right)
    (op : LogicalOp) : Faithful .operand (logical op left right) := by
  have written := first.written.logical second.written op
  have settled := first.enclose (first.written.logicalLeft op)
  have settled' := second.enclose (second.written.logicalRight op)
  have apart := not_conflictsWith_operand op (left.precedence < op.precedence) left
  have apart' := not_conflictsWith_operand op (right.precedence ≤ op.precedence) right
  refine ⟨written.writable, ?_, written.notSpread⟩
  rw [Build.logical, Expr.canonical, apart, apart', Bool.false_or, Bool.false_or,
    settled.ungrouped, settled'.ungrouped]
  rfl

theorem Written.unary (written : Written .operand argument) (op : UnaryOp) :
    Written .operand (unary op argument) := by
  have fitting := @Written.below Precedence.unary _ written (by decide)
  exact ⟨⟨⟨fitting.operand, trivial⟩, fitting.writable⟩, fun _ => rfl⟩

theorem Faithful.unary (holds : Faithful .operand argument) (op : UnaryOp) :
    Faithful .operand (unary op argument) := by
  have written := holds.written.unary op
  have settled := @Faithful.below Precedence.unary _ holds (by decide)
  refine ⟨written.writable, ?_, written.notSpread⟩
  rw [Build.unary, Expr.canonical, settled.ungrouped]
  rfl

theorem Faithful.conditional {test consequent alternate : Expr} (first : Faithful .operand test)
    (second : Faithful .operand consequent) (third : Faithful .operand alternate) :
    Faithful .operand (conditional test consequent alternate) := by
  have settled := @Faithful.upTo Precedence.conditional _ first (by decide)
  refine ⟨⟨⟨⟨settled.operand, second.item.operand, third.item.operand⟩, trivial⟩,
    settled.writable, second.item.writable, third.item.writable⟩, ?_, fun _ => rfl⟩
  rw [Build.conditional, Expr.canonical, settled.ungrouped, second.item.ungrouped,
    third.item.ungrouped]
  rfl

/-! ## Assignments -/

theorem Faithful.target (holds : Faithful .operand expr) (simple : expr.isSimpleTarget = true) :
    Settled .operand Precedence.call expr := by
  refine ⟨holds, ?_⟩
  cases expr with
  | ident | paren => exact (by decide : Precedence.call ≤ Precedence.primary)
  | member => exact Nat.le_refl _
  | _ => cases simple

theorem faithful_update {op : UpdateOp} {fixity : Fixity} (holds : Faithful .operand argument)
    (built : update op fixity argument = .ok expr) : Faithful .operand expr := by
  unfold Build.update at built
  split at built
  · next simple =>
      cases built
      have settled := holds.target simple
      have unary : Settled .operand Precedence.unary argument :=
        ⟨holds, Nat.le_trans (by decide) settled.tight⟩
      refine ⟨⟨⟨⟨simple, settled.operand⟩, trivial⟩, settled.writable⟩, ?_, fun _ => rfl⟩
      cases fixity with
      | before =>
          rw [Expr.canonical, unary.ungrouped]
          rfl
      | after =>
          rw [Expr.canonical, settled.ungrouped]
          rfl
  · cases fixity <;> cases built

theorem faithful_assign {op : AssignOp} {target value : Expr} (first : Faithful .operand target)
    (second : Faithful .operand value) (built : assign op target value = .ok expr) :
    Faithful .operand expr := by
  rw [assign] at built
  split at built
  · next simple =>
      cases built
      have settled := first.target simple
      refine ⟨⟨⟨⟨⟨simple, settled.operand⟩, second.item.operand⟩, trivial⟩, settled.writable,
        second.item.writable⟩, ?_, fun _ => rfl⟩
      rw [Expr.canonical, settled.ungrouped, second.item.ungrouped]
      rfl
  · cases built

theorem Faithful.destructure {pattern : Pattern} (plain : pattern.Plain)
    (composite : pattern.isComposite = true) (holds : Faithful .operand expr) :
    Faithful .operand (destructure pattern expr) := by
  refine ⟨⟨⟨⟨rfl, composite, holds.item.operand⟩, trivial⟩,
    plain.grammatical.writable plain.plain, holds.item.writable⟩, ?_, fun _ => rfl⟩
  rw [Build.destructure, Expr.canonical, pattern.canonical_of_plain plain.plain,
    holds.item.ungrouped]
  rfl

theorem faithful_sequence {items : List Expr} (holds : ∀ item ∈ items, Faithful .operand item)
    (built : sequence items = .ok expr) : Faithful .operand expr := by
  match items with
  | [] => cases built
  | [single] =>
      cases built
      exact holds _ (List.mem_singleton.mpr rfl)
  | first :: second :: others =>
      cases built
      refine ⟨⟨⟨⟨by simp, ?_⟩, trivial⟩, writable_items holds⟩, ?_, fun _ => rfl⟩
      · intro item member
        rcases List.mem_map.mp member with ⟨original, within, rfl⟩
        exact (holds original within).item.operand
      · rw [Expr.canonical, canonical_items holds]
        rfl

/-! ## Chains -/

theorem Written.chainStart (written : Written .operand expr) :
    Fitting .operand Precedence.call (chainStart expr) := by
  apply written.operand (by decide)
  intro strong
  simp only [Bool.or_eq_false_iff, decide_eq_false_iff_not] at strong
  omega

theorem Faithful.chainStart (holds : Faithful .operand expr) :
    Settled .operand Precedence.call (chainStart expr) :=
  holds.enclose holds.written.chainStart

theorem isNumber_chainStart (expr : Expr) : (chainStart expr).isNumber = false := by
  rw [chainStart]
  cases expr with
  | number literal =>
      rw [show (Expr.number literal).kind == .numericLiteral from rfl, Bool.or_true]
      rfl
  | _ =>
      generalize (_ || _) = needed
      cases needed <;> rfl

theorem written_member {owner : Expr} {name : String} {optional : Bool}
    (written : Written .operand owner) (plain : '\\' ∉ name.toList)
    (built : member owner name optional = .ok expr) : Written .operand expr := by
  rcases member_eq_ok built with ⟨accepted, rfl⟩
  have fitting := written.chainStart
  exact ⟨⟨⟨⟨fitting.operand, trivial⟩, nameText_of_isPropertyName accepted plain⟩,
    fitting.writable, trivial⟩, fun _ => rfl⟩

theorem faithful_member {owner : Expr} {name : String} {optional : Bool}
    (holds : Faithful .operand owner) (plain : '\\' ∉ name.toList)
    (built : member owner name optional = .ok expr) : Faithful .operand expr := by
  have written := written_member holds.written plain built
  rcases member_eq_ok built with ⟨-, rfl⟩
  refine ⟨written.writable, ?_, written.notSpread⟩
  rw [Expr.canonical, isNumber_chainStart, Bool.false_or, holds.chainStart.ungrouped]
  rfl

theorem Faithful.computedMember {owner key : Expr} (first : Faithful .operand owner)
    (second : Faithful .operand key) (optional : Bool) :
    Faithful .operand (computedMember owner key optional) := by
  have settled := first.chainStart
  have operand : key.Operand Precedence.sequence :=
    ⟨second.notSpread rfl, .inl key.sequence_le_precedence⟩
  refine ⟨⟨⟨⟨settled.operand, operand⟩, trivial⟩, settled.writable, second.writable⟩, ?_,
    fun _ => rfl⟩
  rw [Build.computedMember, Expr.canonical, settled.ungrouped, second.canonical]
  rfl

theorem item_arguments {arguments : List Expr}
    (holds : ∀ argument ∈ arguments, Faithful place argument) :
    ∀ argument ∈ arguments.map item, argument.Item := by
  intro argument member
  rcases List.mem_map.mp member with ⟨original, within, rfl⟩
  exact (holds original within).item.item

theorem Faithful.call {callee : Expr} {arguments : List Expr} (first : Faithful .operand callee)
    (second : ∀ argument ∈ arguments, Faithful .element argument) (optional : Bool) :
    Faithful .operand (call callee arguments optional) := by
  have settled := first.chainStart
  refine ⟨⟨⟨⟨settled.operand, item_arguments second⟩, trivial⟩, settled.writable,
    writable_items second⟩, ?_, fun _ => rfl⟩
  rw [Build.call, Expr.canonical, settled.ungrouped, canonical_items second]
  rfl

theorem constructs_of_not_callsBeforeNew : ∀ {expr : Expr}, expr.callsBeforeNew = false →
    expr.constructs = true
  | .member _ owner _ _, alone => by
      rw [Expr.callsBeforeNew, Bool.or_eq_false_iff] at alone
      rw [Expr.constructs, alone.1, constructs_of_not_callsBeforeNew alone.2]
      rfl
  | .call .., alone | .tagged .., alone => nomatch alone
  | .null _, _ | .boolean _ _, _ | .number _, _ | .string _, _ | .regExp _ _ _, _
  | .template _ _ _, _ | .ident _, _ | .this _, _ | .array _ _, _ | .object _ _, _ | .paren _ _, _
  | .arrow _ _ _, _ | .unary _ _ _, _ | .update _ _ _ _, _ | .binary _ _ _ _, _
  | .logical _ _ _ _, _ | .conditional _ _ _ _, _ | .assign _ _ _ _, _ | .destructure _ _ _ _, _
  | .sequence _ _, _ | .new _ _ _, _ | .spread _ _, _ => rfl

theorem faithful_new {callee : Expr} {arguments : List Expr} (first : Faithful .operand callee)
    (second : ∀ argument ∈ arguments, Faithful .element argument)
    (built : new callee arguments = .ok expr) : Faithful .operand expr := by
  rw [new] at built
  split at built
  · cases built
  cases built
  have settled : Settled .operand Precedence.call (Build.operand
      (callee.precedence < Precedence.call || callee.callsBeforeNew) callee) :=
    first.operand (by decide) fun strong => by simp at strong; omega
  have alone : (Build.operand
      (callee.precedence < Precedence.call || callee.callsBeforeNew) callee).callsBeforeNew =
        false := by
    cases calls : callee.callsBeforeNew with
    | true =>
        rw [Bool.or_true]
        rfl
    | false =>
        generalize (_ || _) = needed
        cases needed with
        | false => exact calls
        | true => rfl
  refine ⟨⟨⟨⟨⟨settled.operand, constructs_of_not_callsBeforeNew alone⟩, item_arguments second⟩,
    trivial⟩, settled.writable, writable_items second⟩, ?_, fun _ => rfl⟩
  rw [Expr.canonical, alone, Bool.false_or, settled.ungrouped, canonical_items second]
  rfl

theorem faithful_taggedTemplate {tag : Expr} {pieces : List String} {holes : List Expr}
    (first : Faithful .operand tag) (second : ∀ hole ∈ holes, Faithful .operand hole)
    (built : taggedTemplate tag pieces holes = .ok expr) : Faithful .operand expr := by
  rw [taggedTemplate] at built
  split at built
  · cases built
  · next notOptional =>
      rcases except_bind_ok built with ⟨quasis, found, result⟩
      cases result
      have settled := first.chainStart
      rcases templateShape found second with ⟨shape, words⟩
      have alone : (chainStart tag).isOptionalChain = false := by
        rw [chainStart]
        generalize (_ || _) = needed
        cases needed with
        | false => exact Bool.eq_false_iff.mpr notOptional
        | true => rfl
      refine ⟨⟨⟨⟨⟨settled.operand, alone⟩, shape⟩, words⟩, settled.writable,
        writable_holes second⟩, ?_, fun _ => rfl⟩
      rw [Expr.canonical, alone, Bool.false_or, settled.ungrouped, canonical_holes second]
      rfl

/-! ## Containers -/

theorem Faithful.spread (holds : Faithful .operand expr) : Faithful .element (spread expr) := by
  refine ⟨⟨⟨holds.item.operand, trivial⟩, holds.item.writable⟩, ?_, nofun⟩
  rw [Build.spread, Expr.canonical, holds.item.ungrouped]
  rfl

theorem Faithful.array {elements : List (Option Expr)}
    (holds : ∀ item, some item ∈ elements → Faithful .element item) :
    Faithful .operand (array elements) := by
  have settled : ∀ {element}, some element ∈ elements.map (·.map Build.item) →
      Settled .element Precedence.assignment element := by
    intro element member
    rcases List.mem_map.mp member with ⟨original, within, equal⟩
    rcases Option.map_eq_some_iff.mp equal with ⟨original, rfl, rfl⟩
    exact (holds original within).item
  refine ⟨⟨⟨fun element member => (settled member).item, trivial⟩, ?_⟩, ?_, fun _ => rfl⟩
  · exact (elementsInside_iff _ _).mpr fun element member => (settled member).writable
  · rw [Build.array, Expr.canonical, canonicalElements_eq_map]
    apply congrArg (Expr.array {})
    rw [enclosedElements_eq_map]
    apply List.map_congr_left
    intro element member
    cases element with
    | none => rfl
    | some element => exact congrArg some (settled member).ungrouped

def fieldKey (key : String) : PropertyKey :=
  if isIdentifier key then .name { name := key } else .string { value := key }

theorem canonical_fieldKey (key : String) : (fieldKey key).canonical = fieldKey key := by
  rw [fieldKey]
  split <;> rfl

theorem writable_fieldKey {key : String} (plain : isIdentifier key = true → '\\' ∉ key.toList) :
    (fieldKey key).Shape ∧ (fieldKey key).Writable ∧ (fieldKey key).Inside writable := by
  rw [fieldKey]
  split
  · next accepted =>
      exact ⟨trivial, (legible_of_isIdentifier accepted (plain accepted)).1, trivial⟩
  · exact ⟨trivial, trivial, trivial⟩

theorem Written.field {key : String} (plain : isIdentifier key = true → '\\' ∉ key.toList)
    (written : Written .operand expr) : (field key expr).Shape ∧ (field key expr).Writable ∧
      (field key expr).Inside ExprScript.writable := by
  rcases writable_fieldKey plain with ⟨shape, words, inside⟩
  exact ⟨⟨shape, written.item.operand, nofun⟩, words, inside, written.item.writable⟩

theorem Written.object {fields : List (String × Expr)}
    (plain : ∀ field ∈ fields, isIdentifier field.1 = true → '\\' ∉ field.1.toList)
    (holds : ∀ field ∈ fields, Written .operand field.2) : Written .operand (object fields) := by
  have written : ∀ property ∈ fields.map fun entry => Build.field entry.1 entry.2,
      property.Shape ∧ property.Writable ∧ property.Inside ExprScript.writable := by
    intro property member
    rcases List.mem_map.mp member with ⟨⟨key, value⟩, within, rfl⟩
    exact (holds (key, value) within).field (plain (key, value) within)
  refine ⟨⟨⟨fun property member => (written property member).1,
    fun property member => (written property member).2.1⟩, ?_⟩, fun _ => rfl⟩
  exact (propertiesInside_iff _ _).mpr fun property member => (written property member).2.2

theorem canonical_fields {fields : List (String × Expr)}
    (holds : ∀ field ∈ fields, Faithful .operand field.2) :
    canonicalProperties (fields.map fun (key, value) => field key value) =
      enclosedProperties (fields.map fun (key, value) => field key value) := by
  induction fields with
  | nil => rfl
  | cons first fields induction =>
      have later := induction fun field member => holds field (List.mem_cons_of_mem _ member)
      have settled := (holds first (List.mem_cons_self ..)).item
      rw [List.map_cons]
      dsimp only
      rw [field, canonicalProperties, later, settled.ungrouped, enclosedProperties]
      congr 2
      exact canonical_fieldKey first.1

theorem Faithful.object {fields : List (String × Expr)}
    (plain : ∀ field ∈ fields, '\\' ∉ field.1.toList)
    (holds : ∀ field ∈ fields, Faithful .operand field.2) : Faithful .operand (object fields) := by
  have written := Written.object (fun field member _ => plain field member)
    fun field member => (holds field member).written
  refine ⟨written.writable, ?_, written.notSpread⟩
  rw [Build.object, Expr.canonical, canonical_fields holds]
  rfl

theorem Faithful.body (holds : Faithful .operand expr) : Settled .operand Precedence.assignment
    (if expr.kind == .objectExpression then Build.parenthesized expr else Build.item expr) := by
  split
  · exact @Faithful.operand Precedence.assignment _ true holds (by decide) nofun
  · exact holds.item

theorem not_isRest {params : List Pattern} (last : params.dropLast.any isRest = false) :
    ∀ param ∈ params.dropLast, param.kind ≠ .restElement := by
  intro param member
  have notRest := List.any_eq_false.mp last param member
  cases param with
  | rest => exact absurd rfl notRest
  | _ => rintro ⟨⟩

theorem faithful_arrow {params : List Pattern} (plain : ∀ param ∈ params, param.Plain)
    (holds : Faithful .operand argument) (built : arrow params argument = .ok expr) :
    Faithful .operand expr := by
  rw [arrow] at built
  split at built
  · cases built
  · next lastOnly =>
      rcases except_bind_ok built with ⟨⟨⟩, distinct, result⟩
      cases result
      have settled := holds.body
      generalize (if argument.kind == .objectExpression then parenthesized argument
        else item argument) = body at settled ⊢
      have inside : patternsInside writable params :=
        (patternsInside_iff _ _).mpr fun param member =>
          (plain param member).grammatical.writable (plain param member).plain
      have same : canonicalPatterns params = params := by
        rw [canonicalPatterns_eq_map]
        conv_rhs => rw [← List.map_id params]
        apply List.map_congr_left
        intro param member
        exact param.canonical_of_plain (plain param member).plain
      have shape : ParametersShape params :=
        ⟨not_isRest (Bool.eq_false_iff.mpr lastOnly), distinct⟩
      refine ⟨⟨⟨⟨shape, settled.operand⟩, trivial⟩, inside, settled.writable⟩, ?_, fun _ => rfl⟩
      rw [Expr.canonical, same, settled.ungrouped, ← settled.canonical,
        body.print_canonical (plainNumbers_of_writable settled.writable), settled.canonical]
      rfl

/-! ## Whole trees -/

theorem Built.faithful (built : Built place expr) : Faithful place expr := by
  induction built with
  | null | boolean | string | this => exact ⟨⟨⟨trivial, trivial⟩, trivial⟩, rfl, fun _ => rfl⟩
  | number finite positive => exact faithful_number finite positive
  | identifier plain built => exact faithful_identifier plain built
  | parenthesized _ inner => exact inner.parenthesized
  | template _ built holes => exact faithful_template holes built
  | binary _ _ first second => exact first.binary second _
  | logical _ _ first second => exact first.logical second _
  | unary _ argument => exact argument.unary _
  | update _ built argument => exact faithful_update argument built
  | conditional _ _ _ first second third => exact first.conditional second third
  | assign _ _ built first second => exact faithful_assign first second built
  | destructure plain composite _ value => exact value.destructure plain composite
  | sequence _ built items => exact faithful_sequence items built
  | member _ plain built owner => exact faithful_member owner plain built
  | computedMember _ _ first second => exact first.computedMember second _
  | call _ _ first second => exact first.call second _
  | new _ _ built first second => exact faithful_new first second built
  | taggedTemplate _ _ built first second => exact faithful_taggedTemplate first second built
  | array _ elements => exact .array elements
  | object plain _ values => exact .object plain values
  | arrow plain _ built body => exact faithful_arrow plain body built
  | spread _ argument => exact argument.spread
  | element _ operand => exact ⟨operand.writable, operand.canonical, nofun⟩

/-- The text of a built tree is parsed, and what is parsed is the tree. It differs in
places of the source and in parentheses around bodies that start with a brace. -/
theorem parse_print_of_built (built : Built .operand expr) :
    ∃ found, parse expr.print = .ok found ∧ found.erase = expr.enclosed.erase := by
  have faithful := built.faithful
  have operand : expr.Operand Precedence.sequence :=
    ⟨faithful.notSpread rfl, .inl expr.sequence_le_precedence⟩
  rcases parse_print faithful.writable operand with ⟨found, parsed, same, -⟩
  exact ⟨found, parsed, same.trans (congrArg Expr.erase faithful.canonical)⟩

/-- The pattern of `[x, , ...y]`. -/
def samplePattern : Pattern :=
  .array {} [some (.ident { name := "x" }), none, some (.rest {} (.ident { name := "y" }))]

theorem plain_samplePattern : samplePattern.Plain := by
  have first : Ident.Read { name := "x" } := read_of_isIdentifier (by decide) (by decide)
  have last : Ident.Read { name := "y" } := read_of_isIdentifier (by decide) (by decide)
  have restIsLast : samplePattern.Shape := by
    rintro pattern (_ | ⟨_, _ | ⟨_, ⟨⟩⟩⟩)
    exact nofun
  constructor
  · exact ⟨⟨restIsLast, trivial⟩, ⟨⟨trivial, first⟩, trivial⟩,
      ⟨⟨rfl, trivial⟩, ⟨trivial, last⟩, trivial⟩, trivial⟩
  · exact ⟨rfl, ⟨rfl, trivial⟩, ⟨rfl, rfl, trivial⟩, trivial⟩

/-- A function with a body that starts with a brace. -/
theorem parse_print_of_built_sample : ∃ f x power made owner expr found,
    identifier "f" = .ok f ∧ identifier "x" = .ok x ∧
    power = binary (.arithmetic .exp) (unary .minus x)
      (logical .nullish f (logical .or null this)) ∧
    new (call f [spread power, number 2.5] false) [] = .ok made ∧
    member (object [("key", made), ("0", f)]) "key" true = .ok owner ∧
    arrow [samplePattern] owner = .ok expr ∧
    parse expr.print = .ok found ∧ found.erase = expr.enclosed.erase := by
  have f : identifier "f" = .ok (.ident { name := "f" }) := if_pos (by decide +kernel)
  have x : identifier "x" = .ok (.ident { name := "x" }) := if_pos (by decide +kernel)
  have accepted : isPropertyName "key" = true := by decide +kernel
  have builtF : Built .operand (.ident { name := "f" }) := .identifier (by decide) f
  have builtX : Built .operand (.ident { name := "x" }) := .identifier (by decide) x
  have number : Built .operand (number 2.5) := .number (by decide +kernel) (by decide +kernel)
  have power : Built .operand _ :=
    @Built.binary (.arithmetic .exp) _ _ (@Built.unary .minus _ builtX)
      (@Built.logical .nullish _ _ builtF (@Built.logical .or _ _ .null .this))
  have call : Built .operand (call _ [spread _, Build.number 2.5] false) :=
    .call builtF (List.forall_mem_cons.mpr
      ⟨power.spread, List.forall_mem_singleton.mpr number.element⟩)
  have made := Built.new call (List.forall_mem_nil _) rfl
  have fields : Built .operand (object [("key", _), ("0", _)]) :=
    .object (by decide) (List.forall_mem_cons.mpr ⟨made, List.forall_mem_singleton.mpr builtF⟩)
  have owner := @Built.member _ "key" true _ fields (by decide) (if_pos accepted)
  have arrow := @Built.arrow [samplePattern] _ _ (List.forall_mem_singleton.mpr plain_samplePattern)
    owner rfl
  rcases parse_print_of_built arrow with ⟨found, parsed, same⟩
  exact ⟨_, _, _, _, _, _, found, f, x, rfl, rfl, if_pos accepted, rfl, parsed, same⟩

end ExprScript.Build
