import ExprScript.Proofs.Number.Shortest
import ExprScript.Proofs.Reading.Expression
import ExprScript.Proofs.Shell.Held
import ExprScript.Proofs.Tree.Printed

/-! # Documents as literals

The text that a document is shown as is an expression: a literal, with a minus sign
before the numbers below zero. It is scanned as the tokens of that expression, and
so it is parsed to it.
-/

namespace ExprScript

open Reader

/-! ## Numbers -/

namespace Number

def literal (number : Float) : NumberLiteral :=
  { value := number.abs, raw := print number.abs }

/-- The expression that a number is shown as. -/
def toExpr (number : Float) : Expr :=
  if isNegative number then .unary {} .minus (.number (literal number))
  else .number (literal number)

variable {number : Float}

theorem legible_literal (finite : number.isFinite = true) : (literal number).Legible := by
  have plain := plain_abs finite
  have bounded := not_isInf (isFinite_abs finite)
  exact ⟨print_denotes plain bounded (readsBack plain bounded), rfl⟩

theorem precedence_abs (finite : number.isFinite = true) :
    Number.precedence number.abs = Precedence.primary := by
  have finite' := isFinite_abs finite
  rcases (plain_abs finite).precedence with isPrimary | isInfinite
  · exact isPrimary
  · rw [not_isInf finite'] at isInfinite
    cases isInfinite

theorem settles_toExpr (finite : number.isFinite = true) :
    (toExpr number).Settles Precedence.unary := by
  have primary := precedence_abs finite
  unfold toExpr
  split
  · exact ⟨⟨rfl, Nat.le_refl _⟩, rfl⟩
  · refine ⟨⟨rfl, ?_⟩, rfl⟩
    change Precedence.unary ≤ Number.precedence number.abs
    rw [primary]
    decide

theorem legible_toExpr (finite : number.isFinite = true) : (toExpr number).Everywhere legible := by
  have isLiteral : (Expr.number (literal number)).Everywhere legible :=
    ⟨⟨legible_literal finite, precedence_abs finite⟩, trivial⟩
  unfold toExpr
  split
  · refine ⟨⟨⟨rfl, ?_⟩, rfl⟩, isLiteral⟩
    change Precedence.unary ≤ Number.precedence number.abs
    rw [precedence_abs finite]
    decide
  · exact isLiteral

theorem not_startsWith_minus (denotes : Denotes (print number).toList number) :
    startsWith (print number) '-' = false := by
  rcases denotes with ⟨whole, fraction, exponent, form, text, -⟩
  cases whole with
  | nil => exact absurd rfl form.notEmpty
  | cons c whole =>
      have digit := form.wholeDigits c (List.mem_cons_self ..)
      rw [startsWith, text, List.cons_append, List.head?_cons, beq_eq_false_iff_ne]
      rintro equal
      cases equal
      cases digit

theorem print_toExpr (finite : number.isFinite = true) : (toExpr number).print = toText number := by
  have denotes := (legible_literal finite).denotes
  have loose : ¬ (Expr.number (literal number)).precedence < Precedence.unary := by
    change ¬ Number.precedence number.abs < Precedence.unary
    rw [precedence_abs finite]
    decide
  rw [toText_eq finite, toExpr]
  split
  · have apart : UnaryOp.spaceBefore .minus (print number.abs) = false :=
      not_startsWith_minus denotes
    rw [Expr.print, decide_eq_false loose]
    change UnaryOp.spelling .minus ++ (if UnaryOp.spaceBefore .minus (print number.abs) then " "
      else "") ++ print number.abs = _
    rw [apart]
    rfl
  · rw [Expr.print, String.empty_append]
    rfl

end Number

/-! ## Documents -/

namespace Document

mutual

/-- The expression that a document is shown as. -/
def toExpr : Document → Expr
  | .null => .null {}
  | .boolean value => .boolean {} value
  | .integer value => Number.toExpr (Float.ofInt value)
  | .fraction value => Number.toExpr value
  | .string value => .string { value }
  | .array items => .array {} (toElements items)
  | .object members => .object {} (toProperties members)

def toElements : List Document → List (Option Expr)
  | [] => []
  | item :: items => some item.toExpr :: toElements items

def toProperties : List (String × Document) → List Property
  | [] => []
  | (name, member) :: members =>
    .field {} (.string { value := name }) member.toExpr false :: toProperties members

end

/-! ## Legible literals -/

mutual

theorem hasInitializer_toExpr : ∀ document : Document, document.toExpr.hasInitializer = false
  | .null | .boolean _ | .string _ => rfl
  | .integer _ | .fraction _ => by
      rw [toExpr, Number.toExpr]
      split <;> rfl
  | .array items => by
      rw [toExpr, Expr.hasInitializer, elementsHaveInitializer_toElements items]
  | .object members => by
      rw [toExpr, Expr.hasInitializer, propertiesHaveInitializer_toProperties members]

theorem elementsHaveInitializer_toElements : ∀ items : List Document,
    elementsHaveInitializer (toElements items) = false
  | [] => rfl
  | item :: items => by
      rw [toElements, elementsHaveInitializer, hasInitializer_toExpr item,
        elementsHaveInitializer_toElements items, Bool.or_false]

theorem propertiesHaveInitializer_toProperties : ∀ members : List (String × Document),
    propertiesHaveInitializer (toProperties members) = false
  | [] => rfl
  | (_, member) :: members => by
      rw [toProperties, propertiesHaveInitializer, hasInitializer_toExpr member,
        propertiesHaveInitializer_toProperties members, Bool.false_and, Bool.or_false,
        Bool.or_false]

end

theorem settles_toExpr {document : Document} (valid : document.Valid) :
    document.toExpr.Settles Precedence.assignment := by
  have number : ∀ {number : Float}, number.isFinite = true →
      (Number.toExpr number).Binds Precedence.assignment :=
    fun finite => (Number.settles_toExpr finite).toBinds.mono (by decide)
  refine ⟨?_, hasInitializer_toExpr document⟩
  cases document with
  | integer value => exact number (Number.isFinite_ofInt valid)
  | fraction value => exact number valid
  | null | boolean | string | array | object =>
      exact ⟨rfl, (by decide : Precedence.assignment ≤ Precedence.primary)⟩

theorem precedence_toElements {items : List Document} (valid : ItemsValid items) {item : Expr}
    (member : some item ∈ toElements items) : Precedence.assignment ≤ item.precedence := by
  induction items with
  | nil => cases member
  | cons first items induction =>
      rcases List.mem_cons.mp member with equal | member
      · cases equal
        exact (settles_toExpr valid.1).tight
      · exact induction valid.2 member

theorem legible_toProperties {members : List (String × Document)} (valid : MembersValid members)
    {property : Property} (member : property ∈ toProperties members) : property.Legible := by
  induction members with
  | nil => cases member
  | cons first members induction =>
      rcases first with ⟨name, first⟩
      rcases List.mem_cons.mp member with rfl | member
      · exact ⟨trivial, (settles_toExpr valid.1).toBinds, nofun⟩
      · exact induction valid.2 member

mutual

theorem legible_toExpr : ∀ document : Document, document.Valid →
    document.toExpr.Everywhere legible
  | .null, _ | .boolean _, _ | .string _, _ => ⟨trivial, trivial⟩
  | .integer _, valid => Number.legible_toExpr (Number.isFinite_ofInt valid)
  | .fraction _, valid => Number.legible_toExpr valid
  | .array items, valid =>
      ⟨fun _ member => precedence_toElements valid member, legible_elements items valid⟩
  | .object members, valid =>
      ⟨fun _ member => legible_toProperties valid.2 member, legible_properties members valid.2⟩

theorem legible_elements : ∀ items : List Document, ItemsValid items →
    elementsInside legible (toElements items)
  | [], _ => trivial
  | item :: items, valid => ⟨legible_toExpr item valid.1, legible_elements items valid.2⟩

theorem legible_properties : ∀ members : List (String × Document), MembersValid members →
    propertiesInside legible (toProperties members)
  | [], _ => trivial
  | (_, member) :: members, valid =>
      ⟨⟨trivial, legible_toExpr member valid.1⟩, legible_properties members valid.2⟩

end

/-! ## The tokens of the text -/

theorem endsInHole_toElements (items : List Document) :
    false = endsInHole (elementsLexemes (toElements items)) := by
  induction items with
  | nil => rfl
  | cons item items induction =>
      rw [toElements, elementsLexemes, endsInHole_cons, ← induction]
      cases items <;> rfl

theorem prints_numberText {number : Float} (finite : number.isFinite = true) :
    Prints followsItem (Number.toText number) (Number.toExpr number).lexemes := by
  rw [← Number.print_toExpr finite]
  exact (Expr.printed (Number.legible_toExpr finite)).item

mutual

/-- The text of a document is scanned as the tokens of its expression. -/
theorem prints_text : ∀ document : Document, document.Valid →
    Prints followsItem document.text document.toExpr.lexemes
  | .null, _ => (@Expr.printed (.null {}) ⟨trivial, trivial⟩).item
  | .boolean value, _ => (@Expr.printed (.boolean {} value) ⟨trivial, trivial⟩).item
  | .integer _, valid => prints_numberText (Number.isFinite_ofInt valid)
  | .fraction _, valid => prints_numberText valid
  | .string value, _ => (prints_string readsEscaped_json value).any
  | .array items, valid =>
      (prints_bracketed (prints_itemTexts items valid) (endsInHole_toElements items)).any
  | .object members, valid => (prints_braced (prints_memberTexts members valid.2)).any

theorem prints_itemTexts : ∀ items : List Document, ItemsValid items →
    List.Forall₂ PrintsElement (itemTexts items) (elementsLexemes (toElements items))
  | [], _ => .nil
  | item :: items, valid => .cons (prints_text item valid.1) (prints_itemTexts items valid.2)

theorem prints_memberTexts : ∀ members : List (String × Document), MembersValid members →
    List.Forall₂ (Prints followsItem) (memberTexts members)
      (propertiesLexemes (toProperties members))
  | [], _ => .nil
  | (name, member) :: members, valid => by
      have colon : Prints anyChar (":" ++ " ") [.mark .colon] :=
        @prints_operator ":" .colon rfl nofun nofun
      have key : Prints anyChar (Text.quoteJson name) [.string name] :=
        prints_string readsEscaped_json name
      refine .cons ?_ (prints_memberTexts members valid.2)
      exact (key.appendAny colon).appendAny (prints_text member valid.1)

end

theorem parse_text {document : Document} (valid : document.Valid) :
    ∃ found, parse document.text = .ok found ∧ found.erase = document.toExpr.erase := by
  have lexes := prints_text document valid [] [] [] nofun .nil
  rw [List.append_nil, List.append_nil] at lexes
  have settles := settles_toExpr valid
  exact parse_of_lexes lexes (legible_toExpr document valid)
    ⟨settles.toBinds.mono (by decide), settles.settled⟩

end Document

end ExprScript
