import ExprScript.Proofs.Tree.Lexing

/-! # Legible trees are scanned as they are printed

The text of a legible expression is scanned as its tokens, whatever stands around
it. The induction is on the number of tokens, because a pattern is printed like the
expression that it is read as.
-/

namespace ExprScript

open Reader Scanner

namespace Expr

def follows (expr : Expr) : Char → Bool :=
  if Precedence.call ≤ expr.precedence ∧ expr.isNumber = false then followsChain else followsItem

def Printed (expr : Expr) : Prop := Prints expr.follows expr.print expr.lexemes

variable {expr : Expr}

theorem Printed.item (printed : expr.Printed) : Prints followsItem expr.print expr.lexemes := by
  rw [Printed, follows] at printed
  split at printed
  · exact printed.item
  · exact printed

theorem printed_of_chain (prints : Prints followsChain expr.print expr.lexemes) :
    expr.Printed := by
  rw [Printed, follows]
  split
  · exact prints
  · exact prints.item

theorem printed_of_any (prints : Prints anyChar expr.print expr.lexemes) : expr.Printed :=
  printed_of_chain prints.any

theorem printed_of_name (prints : Prints followsName expr.print expr.lexemes) : expr.Printed :=
  printed_of_chain (prints.mono fun _ => followsName_of_followsChain)

theorem printed_of_item (loose : expr.precedence < Precedence.call)
    (prints : Prints followsItem expr.print expr.lexemes) : expr.Printed := by
  rwa [Printed, follows, if_neg (fun tight => Nat.not_le.mpr loose tight.1)]

def PrintedBelow (size : Nat) : Prop :=
  ∀ expr : Expr, expr.lexemes.length < size → expr.Everywhere legible → expr.Printed

end Expr

/-! ## Lists -/

theorem prints_items {items : List Expr} (each : ∀ item ∈ items, item.Printed)
    (tight : ∀ item ∈ items, Precedence.assignment ≤ item.precedence) :
    List.Forall₂ (Prints followsItem) (printItems items) (itemsLexemes items) := by
  induction items with
  | nil => exact .nil
  | cons item items induction =>
      rw [printItems, itemsLexemes, Expr.group_tight (tight item (List.mem_cons_self ..))]
      refine .cons (each item (List.mem_cons_self ..)).item (induction ?_ ?_)
      · exact fun item member => each item (List.mem_cons_of_mem _ member)
      · exact fun item member => tight item (List.mem_cons_of_mem _ member)

theorem prints_holes {holes : List Expr} (each : ∀ hole ∈ holes, hole.Printed) :
    List.Forall₂ (Prints followsItem) (printHoles holes) (itemsLexemes holes) := by
  induction holes with
  | nil => exact .nil
  | cons hole holes induction =>
      rw [printHoles, itemsLexemes]
      refine .cons (each hole (List.mem_cons_self ..)).item (induction ?_)
      exact fun hole member => each hole (List.mem_cons_of_mem _ member)

theorem prints_arrayElements {elements : List (Option Expr)}
    (each : ∀ item, some item ∈ elements → item.Printed)
    (tight : ∀ item, some item ∈ elements → Precedence.assignment ≤ item.precedence) :
    List.Forall₂ PrintsElement (printElements elements) (elementsLexemes elements) := by
  induction elements with
  | nil => exact .nil
  | cons element elements induction =>
      have later := induction (fun item member => each item (List.mem_cons_of_mem _ member))
        (fun item member => tight item (List.mem_cons_of_mem _ member))
      cases element with
      | none =>
          rw [printElements, elementsLexemes]
          exact .cons rfl later
      | some item =>
          rw [printElements, elementsLexemes,
            Expr.group_tight (tight item (List.mem_cons_self ..))]
          exact .cons (each item (List.mem_cons_self ..)).item later

theorem endsInHole_elementsLexemes (elements : List (Option Expr)) :
    endsInHole elements = endsInHole (elementsLexemes elements) := by
  induction elements with
  | nil => rfl
  | cons element elements induction =>
      have isEmpty : (elementsLexemes elements).isEmpty = elements.isEmpty := by
        rw [elementsLexemes_eq_map, List.isEmpty_map]
      cases element <;>
        simp only [elementsLexemes, endsInHole_cons, isEmpty, induction, Option.isNone]

/-! ## Keys and links -/

theorem prints_key {key : PropertyKey} (legible : key.Legible)
    (each : ∀ inner, key = .computed inner → inner.Printed) :
    Prints (· == ':') key.print key.lexemes := by
  have colon : ∀ c, (c == ':') = true → followsName c = true ∧ followsNumber c = true := by
    intro c isColon
    cases eq_of_beq isColon
    exact ⟨by decide, by decide⟩
  cases key with
  | name id =>
      simp only [PropertyKey.print, PropertyKey.lexemes]
      exact (prints_word legible).mono fun c isColon => (colon c isColon).1
  | string literal =>
      simp only [PropertyKey.print, PropertyKey.lexemes]
      exact (prints_string readsEscaped_literal literal.value).any
  | number literal =>
      simp only [PropertyKey.print, PropertyKey.lexemes]
      exact (prints_number legible.denotes).mono fun c isColon => (colon c isColon).2
  | computed inner =>
      simp only [PropertyKey.print, PropertyKey.lexemes, Expr.group_tight legible.tight]
      exact (prints_brackets (each inner rfl).item).any

theorem prints_property {property : Property} (legible : property.Legible)
    (each : ∀ inner : Expr, inner.lexemes.length ≤ property.lexemes.length →
      inner.Everywhere ExprScript.legible → inner.Printed)
    (inside : property.Inside ExprScript.legible) :
    ∃ text, printProperties [property] = [text] ∧
      Prints followsItem text property.lexemes := by
  cases property with
  | spread loc argument =>
      refine ⟨_, by rw [printProperties, printProperties], ?_⟩
      rw [Property.lexemes] at each ⊢
      rw [Expr.group_tight legible.tight]
      exact prints_spread (each argument (by simp) inside).item
  | field loc key value shorthand =>
      rcases inside with ⟨keyInside, inside⟩
      refine ⟨_, by rw [printProperties, printProperties], ?_⟩
      rw [Property.lexemes] at each ⊢
      rw [Expr.group_tight legible.2.1.tight]
      cases shorthand with
      | true => exact (each value (by simp) inside).item
      | false =>
          rw [if_neg (by simp)] at each
          have first : Prints (· == ':') key.print key.lexemes := by
            refine prints_key legible.1 fun inner computed => ?_
            subst computed
            refine each inner ?_ keyInside
            simp only [PropertyKey.lexemes, List.length_append, length_enclosed]
            omega
          have second := (each value (by simp; omega) inside).item
          have colon : Prints anyChar ":" [.mark .colon] :=
            prints_sign .colon nofun nofun (by decide) ⟨nofun, nofun, nofun⟩
          rw [if_neg (by simp), if_neg (by simp), List.append_cons]
          exact (first.append (colon.blank rfl) rfl).appendAny second

theorem prints_properties {properties : List Property}
    (each : ∀ property ∈ properties, ∃ text, printProperties [property] = [text] ∧
      Prints followsItem text property.lexemes) :
    List.Forall₂ (Prints followsItem) (printProperties properties)
      (propertiesLexemes properties) := by
  induction properties with
  | nil => exact .nil
  | cons property properties induction =>
      have later := induction fun property member => each property (List.mem_cons_of_mem _ member)
      rcases each property (List.mem_cons_self ..) with ⟨text, single, prints⟩
      have split : printProperties (property :: properties) =
          text :: printProperties properties := by
        cases property with
        | spread loc argument =>
            rw [printProperties, printProperties] at single
            rw [printProperties, (List.cons.inj single).1]
        | field loc key value shorthand =>
            rw [printProperties, printProperties] at single
            rw [printProperties, (List.cons.inj single).1]
      rw [split, propertiesLexemes]
      exact .cons prints later

/-- An optional link has a mark of its own. -/
theorem prints_optional (optional : Bool) {follows : Char → Bool} {text : String}
    {lexemes : List Lexeme} (prints : Prints follows text lexemes)
    (meets : text.toList.head?.any Punctuator.questionDot.endsBefore = true) :
    Prints follows ((if optional then "?." else "") ++ text)
      (optionalLexemes optional ++ lexemes) := by
  cases optional with
  | false => rwa [if_neg (by simp), String.empty_append]
  | true => exact (prints_mark .questionDot nofun nofun).append prints meets

theorem follows_of_followsItem (expr : Expr) {c : Char} (allowed : followsItem c = true) :
    expr.follows c = true := by
  unfold Expr.follows
  split
  · exact followsChain_of_followsItem allowed
  · exact allowed

theorem follows_optional (expr : Expr) (optional : Bool) {c : Char} {text : String}
    {chars : List Char} (starts : text.toList = c :: chars) (allowed : followsItem c = true) :
    ((if optional then "?." else "") ++ text).toList.head?.any expr.follows = true := by
  cases optional with
  | true =>
      rw [if_pos rfl, String.toList_append]
      exact follows_of_followsItem expr (by decide : followsItem '?' = true)
  | false =>
      rw [if_neg (by simp), String.empty_append, starts, List.head?_cons, Option.any_some]
      exact follows_of_followsItem expr allowed

theorem endsBefore_name {mark : Punctuator} (isPoint : mark = .dot ∨ mark = .questionDot)
    {name : String} (text : NameText name.toList) :
    name.toList.head?.any mark.endsBefore = true := by
  have signs : mark.extensions = ['.'] ∨ mark.extensions = [] := by
    rcases isPoint with rfl | rfl
    · exact .inl (by decide)
    · exact .inr (by decide)
  have notSlash : mark ≠ .slash := by
    rcases isPoint with rfl | rfl <;> nofun
  cases chars : name.toList with
  | nil =>
      rw [chars] at text
      exact text.elim
  | cons c others =>
      rw [chars] at text
      have notPoint : c ≠ '.' := ne_of_isNameStart text.1 (by decide)
      have notDigit := not_isDigit_of_isNameStart text.1
      rw [List.head?_cons, Option.any_some]
      rcases signs with signs | signs <;>
        simp [Punctuator.endsBefore, signs, notPoint, notDigit, notSlash]

theorem prints_link {owner : Expr} {key : MemberKey} (optional : Bool)
    (tight : Precedence.call ≤ owner.precedence) (legible : key.Legible owner) (each : ∀ inner, key = .computed inner → inner.Printed) :
    Prints followsName (key.linkText optional) (key.lexemes optional) ∧
      (key.linkText optional).toList.head?.any owner.follows = true := by
  cases key with
  | name id =>
      simp only [MemberKey.lexemes, MemberKey.linkText]
      have word := prints_word legible.1
      have chain : owner.follows = followsChain := by
        rw [Expr.follows, if_pos ⟨tight, legible.2⟩]
      rw [chain]
      cases optional with
      | true =>
          refine ⟨(prints_mark .questionDot (by decide) (by decide)).append word
            (endsBefore_name (.inr rfl) legible.1), ?_⟩
          rw [if_pos rfl, String.toList_append]
          rfl
      | false =>
          refine ⟨(prints_mark .dot (by decide) (by decide)).append word
            (endsBefore_name (.inl rfl) legible.1), ?_⟩
          rw [if_neg (by simp), String.toList_append]
          rfl
  | computed inner =>
      simp only [MemberKey.lexemes, MemberKey.linkText, String.append_assoc]
      have bracketed := prints_brackets (each inner rfl).item
      rw [String.append_assoc] at bracketed
      have starts : ("[" ++ (inner.print ++ "]")).toList = '[' :: (inner.print ++ "]").toList := by
        rw [String.toList_append]
        rfl
      refine ⟨prints_optional optional bracketed.any ?_, follows_optional owner optional starts rfl⟩
      rw [starts, List.head?_cons, Option.any_some]
      decide

theorem prints_arguments {arguments : List Expr}
    (each : ∀ argument ∈ arguments, argument.Printed)
    (tight : ∀ argument ∈ arguments, argument.LegibleArgument) :
    Prints anyChar ("(" ++ ", ".intercalate (printItems arguments) ++ ")")
      (enclosed .leftParen .rightParen (separated (itemsLexemes arguments))) :=
  prints_parens (prints_separated
    (prints_items each fun argument member => (tight argument member).tight))

theorem starts_arguments (arguments : List Expr) :
    ("(" ++ ", ".intercalate (printItems arguments) ++ ")").toList =
      '(' :: (", ".intercalate (printItems arguments) ++ ")").toList := by
  rw [String.append_assoc, String.toList_append]
  rfl

/-! ## Expressions -/

namespace Expr

/-- Two operands with an operator between them. -/
theorem prints_infix {left right : Expr} {spelling : String} {lexeme : Lexeme}
    (first : left.Printed) (second : right.Printed)
    (operator : Prints anyChar (spelling ++ " ") [lexeme]) :
    Prints followsItem (left.print ++ " " ++ spelling ++ " " ++ right.print)
      (left.lexemes ++ lexeme :: right.lexemes) := by
  have parts : left.print ++ " " ++ spelling ++ " " ++ right.print =
      left.print ++ " " ++ (spelling ++ " ") ++ right.print := by
    simp only [String.append_assoc]
  rw [parts, List.append_cons]
  exact ((first.item.blank rfl).appendAny operator).appendAny second.item

theorem everywhere_of_item {items : List Expr} (inside : itemsInside legible items) {item : Expr}
    (member : item ∈ items) : item.Everywhere legible :=
  (itemsInside_iff legible items).mp inside item member

theorem printed_items {size : Nat} (below : PrintedBelow size) {items : List Expr}
    (inside : itemsInside legible items)
    (smaller : ∀ list ∈ itemsLexemes items, list.length < size) :
    ∀ item ∈ items, item.Printed := by
  intro item member
  refine below item (smaller item.lexemes ?_) (everywhere_of_item inside member)
  rw [itemsLexemes_eq_map]
  exact List.mem_map_of_mem member

theorem length_lt_arguments {items : List Expr} {list : List Lexeme}
    (member : list ∈ itemsLexemes items) :
    list.length + 1 < (enclosed .leftParen .rightParen (separated (itemsLexemes items))).length := by
  have within := length_le_separated member
  rw [length_enclosed]
  omega

theorem printed_binary {loc : Span} {op : BinaryOp} {left right : Expr}
    (holds : (Expr.binary loc op left right).Legible) (first : left.Printed)
    (second : right.Printed) : (Expr.binary loc op left right).Printed := by
  refine printed_of_item (Nat.lt_trans (precedence_binary_lt loc op left right) (by decide)) ?_
  rw [print_binary holds, lexemes]
  exact prints_infix first second (prints_binaryOp op)

theorem printed_logical {loc : Span} {op : LogicalOp} {left right : Expr}
    (holds : (Expr.logical loc op left right).Legible) (first : left.Printed)
    (second : right.Printed) : (Expr.logical loc op left right).Printed := by
  refine printed_of_item (Nat.lt_trans (precedence_logical_lt loc op left right) (by decide)) ?_
  rw [print_logical holds, lexemes]
  exact prints_infix first second (prints_logicalOp op)

theorem printed_conditional {loc : Span} {test consequent alternate : Expr}
    (holds : (Expr.conditional loc test consequent alternate).Legible) (first : test.Printed)
    (second : consequent.Printed) (third : alternate.Printed) :
    (Expr.conditional loc test consequent alternate).Printed := by
  refine printed_of_item (Nat.lt_trans Precedence.conditional_lt_postfixed (by decide)) ?_
  have question : Prints anyChar ("?" ++ " ") [.mark .question] :=
    @prints_operator _ .question rfl nofun nofun
  have colon : Prints anyChar (":" ++ " ") [.mark .colon] :=
    @prints_operator _ .colon rfl nofun nofun
  have parts : test.print ++ " ? " ++ consequent.print ++ " : " ++ alternate.print =
      test.print ++ " " ++ ("?" ++ " ") ++ (consequent.print ++ " ") ++ (":" ++ " ") ++
        alternate.print := by
    simp only [String.append_assoc]
    rfl
  have tokens : test.lexemes ++ .mark .question ::
      (consequent.lexemes ++ .mark .colon :: alternate.lexemes) =
      test.lexemes ++ [.mark .question] ++ consequent.lexemes ++ [.mark .colon] ++
        alternate.lexemes := by
    simp
  rw [print, lexemes, group_tight holds.1.tight, group_tight holds.2.1.tight,
    group_tight holds.2.2.tight, parts, tokens]
  exact ((((first.item.blank rfl).appendAny question).appendAny
    (second.item.blank rfl)).appendAny colon).appendAny third.item

theorem printed_patterns {size : Nat} (below : PrintedBelow size) {patterns : List Pattern}
    (inside : patternsInside legible patterns)
    (smaller : ∀ list ∈ patternsLexemes patterns, list.length < size) :
    List.Forall₂ (Prints followsItem) (printPatterns patterns) (patternsLexemes patterns) := by
  induction patterns with
  | nil => exact .nil
  | cons pattern patterns induction =>
      rcases inside with ⟨inside, inside'⟩
      rw [patternsLexemes] at smaller
      have first := below pattern.cover
        (by rw [pattern.lexemes_cover]; exact smaller _ (List.mem_cons_self ..))
        (pattern.legible_cover inside)
      have prints := first.item
      rw [pattern.print_cover inside, pattern.lexemes_cover] at prints
      rw [printPatterns, patternsLexemes]
      exact .cons prints (induction inside' fun list member =>
        smaller list (List.mem_cons_of_mem _ member))

theorem printed_arrow {loc : Span} {params : List Pattern} {body : Expr}
    (holds : (Expr.arrow loc params body).Legible)
    (first : List.Forall₂ (Prints followsItem) (printPatterns params) (patternsLexemes params))
    (second : body.Printed) :
    Prints followsItem (Expr.arrow loc params body).print
      (Expr.arrow loc params body).lexemes := by
  have arrow : Prints anyChar ("=>" ++ " ") [.mark .arrow] :=
    @prints_operator _ .arrow rfl nofun nofun
  have parts : "(" ++ ", ".intercalate (printPatterns params) ++ ") => " ++ body.print =
      "(" ++ ", ".intercalate (printPatterns params) ++ ")" ++ " " ++ ("=>" ++ " ") ++
        body.print := by
    simp only [String.append_assoc]
    rfl
  simp only [print, lexemes, group_tight holds.2.1.tight, holds.2.2, group_false]
  rw [parts, List.append_cons]
  exact (((prints_parens (prints_separated first)).blank rfl).appendAny arrow).appendAny
    second.item

theorem printed_step (expr : Expr) (below : PrintedBelow expr.lexemes.length)
    (holds : expr.Everywhere legible) : expr.Printed := by
  rcases holds with ⟨holds, inside⟩
  cases expr with
  | null loc =>
      apply printed_of_name
      simp only [print, lexemes]
      exact prints_letters (by decide) (by decide)
  | boolean loc value =>
      apply printed_of_name
      simp only [print, lexemes]
      cases value <;> exact prints_letters (by decide) (by decide)
  | this loc =>
      apply printed_of_name
      simp only [print, lexemes]
      exact prints_letters (by decide) (by decide)
  | number literal =>
      -- A point behind the number would belong to it.
      rw [Printed, follows, if_neg (by simp [isNumber])]
      simp only [print, lexemes]
      exact (prints_number holds.1.denotes).mono fun _ => followsNumber_of_followsItem
  | string literal =>
      apply printed_of_any
      simp only [print, lexemes]
      exact prints_string readsEscaped_literal literal.value
  | regExp loc pattern flags =>
      apply printed_of_name
      simp only [print, lexemes]
      exact prints_regExp holds.1
  | ident id =>
      apply printed_of_name
      simp only [print, lexemes]
      exact prints_word holds.1
  | template loc quasis holes =>
      apply printed_of_any
      rw [lexemes] at below
      rw [print, lexemes]
      have count : quasis.length = (itemsLexemes holes).length + 1 := by
        rw [itemsLexemes_eq_map, List.length_map, holds.count]
      refine prints_template (prints_holes (printed_items below inside fun list member => ?_)) count
        holds.texts
      exact length_lt_templateLexemes count false member
  | array loc elements =>
      apply printed_of_any
      rw [lexemes] at below
      rw [print, lexemes]
      refine prints_bracketed (prints_arrayElements (fun item member => ?_) holds)
        (endsInHole_elementsLexemes elements)
      refine below item ?_ ((elementsInside_iff legible elements).mp inside item member)
      have within : some item.lexemes ∈ elementsLexemes elements := by
        rw [elementsLexemes_eq_map]
        exact List.mem_map.mpr ⟨some item, member, rfl⟩
      have smaller := length_le_separatedElements within
      rw [length_enclosed]
      omega
  | object loc properties =>
      apply printed_of_any
      rw [lexemes] at below
      rw [print, lexemes]
      refine prints_braced (prints_properties fun property member => ?_)
      refine prints_property (holds property member) (fun inner smaller legible => ?_)
        ((propertiesInside_iff legible properties).mp inside property member)
      refine below inner ?_ legible
      have within : property.lexemes ∈ propertiesLexemes properties := by
        rw [propertiesLexemes_eq_map]
        exact List.mem_map_of_mem member
      have smaller' := length_le_separated within
      rw [length_enclosed]
      omega
  | paren loc inner =>
      apply printed_of_any
      rw [lexemes] at below
      rw [print, lexemes]
      exact prints_parens (below inner (by rw [length_enclosed]; omega) inside).item
  | arrow loc params body =>
      rcases inside with ⟨inside, inside'⟩
      rw [lexemes] at below
      refine printed_of_item (Nat.lt_trans Precedence.assignment_lt_postfixed (by decide)) ?_
      have first := @printed_patterns ((separated (patternsLexemes params)).length + 1)
        (fun inner smaller => below inner (by
          simp only [List.length_append, length_enclosed, List.length_cons]
          omega)) _ inside fun list member => Nat.lt_succ_of_le (length_le_separated member)
      have second := below body (by simp; omega) inside'
      exact printed_arrow holds first second
  | unary loc op argument =>
      rw [lexemes] at below
      refine printed_of_item (Nat.lt_trans Precedence.unary_lt_postfixed (by decide)) ?_
      have inner := (below argument (by simp) inside).item
      simp only [print, lexemes, group_tight holds.tight]
      exact prints_unary op (argument.opens inside) inner
  | update loc op fixity argument =>
      cases fixity with
      | before =>
          rw [lexemes] at below
          refine printed_of_item (Nat.lt_trans Precedence.unary_lt_postfixed (by decide)) ?_
          have inner := (below argument (by simp) inside).item
          rw [print, lexemes, group_tight holds.2.tight]
          exact (prints_update op).appendAny inner
      | after =>
          rw [lexemes] at below
          apply printed_of_any
          have inner := (below argument (by simp) inside).item
          rw [print, lexemes, group_tight holds.2.tight]
          refine inner.append (prints_update op) ?_
          cases op <;> rfl
  | binary loc op left right =>
      rcases inside with ⟨inside, inside'⟩
      rw [lexemes] at below
      exact printed_binary holds (below left (by simp) inside)
        (below right (by simp; omega) inside')
  | logical loc op left right =>
      rcases inside with ⟨inside, inside'⟩
      rw [lexemes] at below
      exact printed_logical holds (below left (by simp) inside)
        (below right (by simp; omega) inside')
  | conditional loc test consequent alternate =>
      rcases inside with ⟨inside, inside', inside''⟩
      rw [lexemes] at below
      exact printed_conditional holds (below test (by simp) inside)
        (below consequent (by simp; omega) inside') (below alternate (by simp; omega) inside'')
  | assign loc op target value =>
      rcases inside with ⟨inside, inside'⟩
      rw [lexemes] at below
      refine printed_of_item (Nat.lt_trans Precedence.assignment_lt_postfixed (by decide)) ?_
      rw [print, lexemes, group_tight holds.1.2.tight, group_tight holds.2.tight]
      exact prints_infix (below target (by simp) inside) (below value (by simp; omega) inside')
        (prints_assignOp op)
  | destructure loc op pattern value =>
      rcases inside with ⟨inside, inside'⟩
      rw [lexemes] at below
      refine printed_of_item (Nat.lt_trans Precedence.assignment_lt_postfixed (by decide)) ?_
      -- The pattern is printed like the expression that it is read as at first.
      have first := below pattern.cover (by rw [pattern.lexemes_cover]; simp)
        (pattern.legible_cover inside)
      have second := below value (by simp; omega) inside'
      have whole := prints_infix first second (prints_assignOp op)
      rw [pattern.print_cover inside, pattern.lexemes_cover] at whole
      rw [print, lexemes, group_tight holds.2.2.tight]
      exact whole
  | sequence loc items =>
      rw [lexemes] at below
      refine printed_of_item (Nat.lt_trans Precedence.sequence_lt_postfixed (by decide)) ?_
      rw [print, lexemes]
      have several : 2 ≤ (itemsLexemes items).length := by
        rw [itemsLexemes_eq_map, List.length_map]
        exact holds.1
      exact prints_separated (prints_items
        (printed_items below inside fun list member => length_lt_separated several member)
        fun item member => (holds.2 item member).tight)
  | member loc owner key optional =>
      rcases inside with ⟨inside, inside'⟩
      rw [lexemes] at below
      apply printed_of_name
      rw [print_member holds, lexemes]
      have some : 0 < (key.lexemes optional).length := by
        cases key <;> simp [MemberKey.lexemes, enclosed]
      have first := below owner (by simp only [List.length_append]; omega) inside
      have second := prints_link optional holds.1.tight holds.2 (fun inner computed => by
        subst computed
        refine below inner ?_ inside'
        simp only [MemberKey.lexemes, List.length_append, length_enclosed]
        omega)
      exact Prints.append first second.1 second.2
  | call loc callee arguments optional =>
      rcases inside with ⟨inside, inside'⟩
      rw [lexemes] at below
      apply printed_of_any
      rw [print_call holds, lexemes]
      have first := below callee (by simp [length_enclosed]) inside
      have second := prints_arguments (printed_items below inside' fun list member => by
        have smaller := length_lt_arguments member
        simp only [List.length_append]
        omega) holds.2
      have starts := starts_arguments arguments
      refine Prints.append first (prints_optional optional second ?_)
        (follows_optional callee optional starts rfl)
      rw [starts, List.head?_cons, Option.any_some]
      decide
  | new loc callee arguments =>
      rcases inside with ⟨inside, inside'⟩
      rw [lexemes] at below
      apply printed_of_any
      rw [print_new holds, lexemes]
      have first := below callee (by simp [length_enclosed]) inside
      have second := prints_arguments (printed_items below inside' fun list member => by
        have smaller := length_lt_arguments member
        simp only [List.length_cons, List.length_append]
        omega) holds.2
      have word : Prints anyChar ("new" ++ " ") [.word "new"] :=
        (prints_letters (by decide) (by decide)).blank (by decide)
      refine word.appendAny (Prints.append first second ?_)
      rw [starts_arguments arguments, List.head?_cons, Option.any_some]
      exact follows_of_followsItem callee rfl
  | tagged loc tag templateLoc quasis holes =>
      rcases inside with ⟨inside, inside'⟩
      rw [lexemes] at below
      apply printed_of_any
      rw [print_tagged holds, lexemes]
      have count : quasis.length = (itemsLexemes holes).length + 1 := by
        rw [itemsLexemes_eq_map, List.length_map, holds.2.count]
      have some : 0 < (templateLexemes false quasis (itemsLexemes holes)).length :=
        length_templateLexemes_pos (by omega) _ _
      have first := below tag (by simp only [List.length_append]; omega) inside
      have second := prints_template (prints_holes (printed_items below inside' fun list member => by
        have smaller := length_lt_templateLexemes count false member
        simp only [List.length_append]
        omega)) count holds.2.texts
      refine Prints.append first second ?_
      rw [printTemplate, String.append_assoc, String.toList_append]
      exact follows_of_followsItem tag (by decide : followsItem '\x60' = true)
  | spread loc argument =>
      rw [lexemes] at below
      refine printed_of_item (Nat.lt_trans Precedence.assignment_lt_postfixed (by decide)) ?_
      rw [print, lexemes, group_tight holds.tight]
      exact prints_spread (below argument (by simp) inside).item

theorem printed {expr : Expr} (holds : expr.Everywhere legible) : expr.Printed := by
  have all : ∀ size, PrintedBelow size := by
    intro size
    induction size with
    | zero => exact fun _ wrong => absurd wrong (Nat.not_lt_zero _)
    | succ size induction =>
        intro expr smaller holds
        refine expr.printed_step (fun inner small => ?_) holds
        exact induction inner (by omega)
  exact all _ expr (Nat.lt_succ_self _) holds

end Expr

end ExprScript
