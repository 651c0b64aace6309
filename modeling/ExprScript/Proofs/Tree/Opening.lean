import ExprScript.Proofs.Tree.Cover

/-! # How a text starts

The first character and the first token of a legible expression: they tell what
the expression may be.
-/

namespace ExprScript

open Reader Scanner

namespace Precedence

theorem unary_lt_postfixed : unary < postfixed := by decide

theorem conditional_lt_postfixed : conditional < postfixed := by decide

theorem assignment_lt_postfixed : assignment < postfixed := by decide

theorem sequence_lt_postfixed : sequence < postfixed := by decide

end Precedence

namespace TokenKind

def startsChain : TokenKind → Bool
  | .identifier | .numericLiteral | .stringLiteral | .regExpLiteral | .noSubstitutionTemplate
  | .templateHead => true
  | .keyword word =>
    match word with
    | .trueWord | .falseWord | .nullWord | .thisWord | .newWord => true
    | _ => false
  | .punctuator mark =>
    match mark with
    | .leftBracket | .leftBrace | .leftParen => true
    | _ => false
  | _ => false

def startsOperand (kind : TokenKind) : Bool :=
  kind.startsChain || (Parse.unaryOp? kind).isSome || (Parse.updateOp? kind).isSome

end TokenKind

def Expr.Begins (expr : Expr) (kind : TokenKind) : Prop :=
  if expr.isSpread = true then kind = .punctuator .dotDotDot
  else kind.startsOperand = true ∧ (Precedence.postfixed ≤ expr.precedence → kind.startsChain = true)

theorem Expr.Begins.operand {expr : Expr} {kind : TokenKind} (begins : expr.Begins kind)
    (notSpread : expr.isSpread = false) : kind.startsOperand = true := by
  rw [Begins, if_neg (by simp [notSpread])] at begins
  exact begins.1

theorem Expr.Begins.chain {expr : Expr} {kind : TokenKind} (begins : expr.Begins kind)
    {level : Nat} (binds : expr.Binds level) (high : Precedence.postfixed ≤ level) :
    kind.startsChain = true := by
  rw [Begins, if_neg (by simp [binds.notSpread])] at begins
  exact begins.2 (Nat.le_trans high binds.tight)

theorem TokenKind.startsOperand_of_startsChain {kind : TokenKind}
    (starts : kind.startsChain = true) : kind.startsOperand = true := by
  simp [startsOperand, starts]

theorem Expr.begins_of_chain {expr : Expr} {kind : TokenKind} (starts : kind.startsChain = true)
    (notSpread : expr.isSpread = false) : expr.Begins kind := by
  rw [Begins, if_neg (by simp [notSpread])]
  exact ⟨kind.startsOperand_of_startsChain starts, fun _ => starts⟩

theorem Expr.begins_of_operand {expr : Expr} {kind : TokenKind} (starts : kind.startsOperand = true)
    (notSpread : expr.isSpread = false) (loose : expr.precedence < Precedence.postfixed) :
    expr.Begins kind := by
  rw [Begins, if_neg (by simp [notSpread])]
  exact ⟨starts, fun tight => absurd loose (Nat.not_lt.mpr tight)⟩

/-- A text and its tokens have a first character and a first token. The character
never goes on with an operator before the text, and it is a brace if the token is. -/
def Opens (text : String) (lexemes : List Lexeme) (begins : TokenKind → Prop) : Prop :=
  ∃ c chars lexeme others, text.toList = c :: chars ∧ lexemes = lexeme :: others ∧ c ≠ '=' ∧
    (lexeme.1 = .punctuator .leftBrace → c = '\x7b') ∧ begins lexeme.1

namespace Opens

variable {text : String} {lexemes : List Lexeme} {begins : TokenKind → Prop}

theorem append (opens : Opens text lexemes begins) (text' : String) (lexemes' : List Lexeme) :
    Opens (text ++ text') (lexemes ++ lexemes') begins := by
  rcases opens with ⟨c, chars, lexeme, others, equal, rfl, holds⟩
  refine ⟨c, chars ++ text'.toList, lexeme, others ++ lexemes', ?_, rfl, holds⟩
  rw [String.toList_append, equal]
  rfl

theorem mono {wider : TokenKind → Prop} (opens : Opens text lexemes begins)
    (within : ∀ kind, begins kind → wider kind) : Opens text lexemes wider := by
  rcases opens with ⟨c, chars, lexeme, others, equal, equal', notEqual, brace, holds⟩
  exact ⟨c, chars, lexeme, others, equal, equal', notEqual, brace, within _ holds⟩

theorem first {c : Char} {chars : List Char} {lexeme : Lexeme} {others : List Lexeme}
    (equal : text.toList = c :: chars) (notEqual : c ≠ '=')
    (brace : lexeme.1 = .punctuator .leftBrace → c = '\x7b') (holds : begins lexeme.1) :
    Opens text (lexeme :: others) begins :=
  ⟨c, chars, lexeme, others, equal, rfl, notEqual, brace, holds⟩

end Opens

/-! ## Words -/

theorem nameText_of_letters {name : String} (letters : name.toList.all Text.isNameStart = true)
    (some : name ≠ "") : NameText name.toList := by
  cases chars : name.toList with
  | nil => exact absurd (String.toList_eq_nil_iff.mp chars) some
  | cons c others =>
      rw [chars, List.all_cons, Bool.and_eq_true] at letters
      refine ⟨letters.1, fun d member => ?_⟩
      exact isNamePart_of_isNameStart (List.all_eq_true.mp letters.2 d member)

theorem opens_word {name : String} {begins : TokenKind → Prop} (text : NameText name.toList)
    (others : List Lexeme) (holds : begins (kindOfWord name)) :
    Opens name (.word name :: others) begins := by
  cases chars : name.toList with
  | nil =>
      rw [chars] at text
      exact text.elim
  | cons c rest =>
      rw [chars] at text
      refine .first chars (ne_of_isNameStart text.1 (by decide)) ?_ holds
      intro wrong
      unfold Lexeme.word kindOfWord at wrong
      split at wrong <;> cases wrong

theorem opens_number {number : Float} {begins : TokenKind → Prop}
    (denotes : Number.Denotes (Number.print number).toList number)
    (holds : begins .numericLiteral) : Opens (Number.print number) [.number number] begins := by
  rcases denotes with ⟨whole, fraction, exponent, form, text, -⟩
  cases whole with
  | nil => exact absurd rfl form.notEmpty
  | cons c whole =>
      refine @Opens.first _ _ _ _ (.number number) [] text ?_ nofun holds
      rintro rfl
      cases form.wholeDigits _ (List.mem_cons_self ..)

/-! ## Expressions -/

theorem opens_template {quasis : List Quasi} {holes : List Expr} {begins : TokenKind → Prop}
    (legible : TemplateLegible quasis holes) (texts : List String)
    (holds : ∀ kind : TokenKind, kind.opensTemplate = true → begins kind) :
    Opens (printTemplate quasis texts) (templateLexemes false quasis (itemsLexemes holes))
      begins := by
  cases quasis with
  | nil =>
      have tails := legible.tails
      simp at tails
  | cons quasi quasis =>
      have starts : (printTemplate (quasi :: quasis) texts).toList =
          '\x60' :: ((weave ((quasi :: quasis).map (·.raw)) texts).toList ++ ['\x60']) := by
        simp [printTemplate]
      cases holes with
      | nil => exact .first starts (by decide) nofun (holds _ rfl)
      | cons hole holes => exact .first starts (by decide) nofun (holds _ rfl)

theorem opens_bracketed {elements : List String} {hole : Bool} {lexemes : List Lexeme}
    {begins : TokenKind → Prop} (holds : begins (.punctuator .leftBracket)) :
    Opens (printBracketed elements hole) (enclosed .leftBracket .rightBracket lexemes) begins := by
  have starts : (printBracketed elements hole).toList =
      '[' :: ((", ".intercalate elements).toList ++ (if hole then [','] else []) ++ [']']) := by
    cases hole <;> simp [printBracketed]
  exact .first starts (by decide) nofun holds

theorem opens_braced {members : List String} {lexemes : List Lexeme} {begins : TokenKind → Prop}
    (holds : begins (.punctuator .leftBrace)) :
    Opens (printBraced members) (enclosed .leftBrace .rightBrace lexemes) begins := by
  have starts : ∃ chars, (printBraced members).toList = '\x7b' :: chars := by
    unfold printBraced
    split
    · exact ⟨['\x7d'], by decide⟩
    · exact ⟨' ' :: ((", ".intercalate members).toList ++ [' ', '\x7d']), by simp⟩
  rcases starts with ⟨chars, starts⟩
  exact .first starts (by decide) (fun _ => rfl) holds

theorem Pattern.opens {pattern : Pattern} (composite : pattern.isComposite = true)
    {begins : TokenKind → Prop} (bracket : begins (.punctuator .leftBracket))
    (brace : begins (.punctuator .leftBrace)) : Opens pattern.print pattern.lexemes begins := by
  cases pattern with
  | array loc elements =>
      simp only [Pattern.print, Pattern.lexemes]
      exact opens_bracketed bracket
  | object loc properties =>
      simp only [Pattern.print, Pattern.lexemes]
      exact opens_braced brace
  | _ => cases composite

def MemberKey.linkText (optional : Bool) : MemberKey → String
  | .name id => (if optional then "?." else ".") ++ id.name
  | .computed key => (if optional then "?." else "") ++ "[" ++ key.print ++ "]"

namespace Expr

theorem print_binary {loc : Span} {op : BinaryOp} {left right : Expr}
    (legible : (Expr.binary loc op left right).Legible) :
    (Expr.binary loc op left right).print =
      left.print ++ " " ++ op.spelling ++ " " ++ right.print := by
  rw [Legible] at legible
  rw [print]
  split
  · next isExp =>
      rw [if_pos isExp] at legible
      rw [group_tight legible.1.tight, group_tight legible.2.tight]
  · next notExp =>
      rw [if_neg notExp] at legible
      rw [group_tight legible.1.tight, group_tight legible.2.tight]

theorem print_logical {loc : Span} {op : LogicalOp} {left right : Expr}
    (legible : (Expr.logical loc op left right).Legible) :
    (Expr.logical loc op left right).print =
      left.print ++ " " ++ op.spelling ++ " " ++ right.print := by
  rcases legible with ⟨⟨first, compatible⟩, second, compatible'⟩
  rw [print, compatible, compatible', Bool.false_or, Bool.false_or, group_tight first.tight,
    group_tight second.tight]

theorem print_member {loc : Span} {owner : Expr} {key : MemberKey} {optional : Bool}
    (legible : (Expr.member loc owner key optional).Legible) :
    (Expr.member loc owner key optional).print = owner.print ++ key.linkText optional := by
  rcases legible with ⟨first, second⟩
  cases key with
  | name id =>
      rw [print_member_name, second.2, Bool.false_or, group_tight first.tight,
        String.append_assoc, MemberKey.linkText]
  | computed key =>
      rw [print_member_computed, group_tight first.tight, MemberKey.linkText]
      simp only [String.append_assoc]

theorem print_call {loc : Span} {callee : Expr} {arguments : List Expr} {optional : Bool}
    (legible : (Expr.call loc callee arguments optional).Legible) :
    (Expr.call loc callee arguments optional).print =
      callee.print ++ ((if optional then "?." else "") ++
        ("(" ++ ", ".intercalate (printItems arguments) ++ ")")) := by
  rw [print, group_tight legible.1.tight]
  cases optional <;> simp only [String.append_assoc] <;> rfl

theorem print_new {loc : Span} {callee : Expr} {arguments : List Expr}
    (legible : (Expr.new loc callee arguments).Legible) :
    (Expr.new loc callee arguments).print =
      "new " ++ (callee.print ++ ("(" ++ ", ".intercalate (printItems arguments) ++ ")")) := by
  rw [print, legible.1.2, Bool.false_or, group_tight legible.1.1.tight]
  simp only [String.append_assoc]

theorem print_tagged {loc templateLoc : Span} {tag : Expr} {quasis : List Quasi}
    {holes : List Expr} (legible : (Expr.tagged loc tag templateLoc quasis holes).Legible) :
    (Expr.tagged loc tag templateLoc quasis holes).print =
      tag.print ++ printTemplate quasis (printHoles holes) := by
  rw [print, legible.1.2, Bool.false_or, group_tight legible.1.1.tight]

theorem opens_unary (op : UnaryOp) (text : String) (others : List Lexeme) :
    Opens (op.spelling ++ text) (op.lexeme :: others)
      fun kind => kind.startsOperand = true := by
  have spelled : Opens op.spelling [op.lexeme] fun kind => kind.startsOperand = true := by
    cases op with
    | typeof => exact opens_word (nameText_of_letters (by decide) (by decide)) _ (by decide)
    | void => exact opens_word (nameText_of_letters (by decide) (by decide)) _ (by decide)
    | _ => exact @Opens.first _ _ _ [] _ _ rfl (by decide) nofun (by decide)
  exact spelled.append text others

theorem opens_update (op : UpdateOp) (text : String) (others : List Lexeme) :
    Opens (op.spelling ++ text) (.mark op.mark :: others)
      fun kind => kind.startsOperand = true := by
  have spelled : Opens op.spelling [.mark op.mark] fun kind => kind.startsOperand = true := by
    cases op with
    | increment => exact @Opens.first _ _ _ ['+'] _ _ rfl (by decide) nofun (by decide)
    | decrement => exact @Opens.first _ _ _ ['-'] _ _ rfl (by decide) nofun (by decide)
  exact spelled.append text others

theorem opens_left {expr left : Expr} {level : Nat} (binds : left.Binds level)
    (opens : Opens left.print left.lexemes left.Begins) (notSpread : expr.isSpread = false)
    (loose : expr.precedence < Precedence.postfixed) (text : String) (others : List Lexeme) :
    Opens (left.print ++ text) (left.lexemes ++ others) expr.Begins :=
  (opens.append text others).mono fun _ begins =>
    begins_of_operand (begins.operand binds.notSpread) notSpread loose

theorem opens_chain {expr owner : Expr} (binds : owner.Binds Precedence.call)
    (opens : Opens owner.print owner.lexemes owner.Begins) (notSpread : expr.isSpread = false)
    (text : String) (others : List Lexeme) :
    Opens (owner.print ++ text) (owner.lexemes ++ others) expr.Begins :=
  (opens.append text others).mono fun _ begins =>
    begins_of_chain (begins.chain binds (by decide)) notSpread

theorem precedence_binary_lt (loc : Span) (op : BinaryOp) (left right : Expr) :
    (Expr.binary loc op left right).precedence < Precedence.postfixed := by
  rw [precedence]
  cases op with
  | arithmetic op => cases op <;> decide
  | _ => decide

theorem precedence_logical_lt (loc : Span) (op : LogicalOp) (left right : Expr) :
    (Expr.logical loc op left right).precedence < Precedence.postfixed := by
  rw [precedence]
  cases op <;> decide

mutual

theorem opens : ∀ expr : Expr, expr.Everywhere legible →
    Opens expr.print expr.lexemes expr.Begins
  | .null _, _ => by
      simp only [print, lexemes]
      exact opens_word (nameText_of_letters (by decide) (by decide)) _
        (begins_of_chain (by decide) rfl)
  | .boolean _ value, _ => by
      simp only [print, lexemes]
      cases value <;> exact opens_word (nameText_of_letters (by decide) (by decide)) _
        (begins_of_chain (by decide) rfl)
  | .this _, _ => by
      simp only [print, lexemes]
      exact opens_word (nameText_of_letters (by decide) (by decide)) _
        (begins_of_chain (by decide) rfl)
  | .number literal, ⟨holds, _⟩ => by
      simp only [print, lexemes]
      exact opens_number holds.1.denotes (begins_of_chain rfl rfl)
  | .string literal, _ => by
      simp only [print, lexemes]
      have starts : (Text.quoteLiteral literal.value).toList =
          '\x22' :: (Text.escapeAll Text.literalEscaping literal.value.toList ++ ['\x22']) := by
        simp [Text.quoteLiteral, Text.quoteWith]
      exact .first starts (by decide) nofun (begins_of_chain rfl rfl)
  | .regExp _ pattern flags, _ => by
      simp only [print, lexemes, String.append_assoc]
      exact (@Opens.first "/" _ '/' [] (.regExp pattern flags) [] rfl (by decide) nofun
        (begins_of_chain rfl rfl)).append _ []
  | .template _ quasis holes, ⟨holds, _⟩ => by
      simp only [print, lexemes]
      refine opens_template holds _ fun kind isTemplate => begins_of_chain ?_ rfl
      cases kind <;> first | rfl | cases isTemplate
  | .ident id, ⟨holds, _⟩ => by
      simp only [print, lexemes]
      exact opens_word holds.1 _ (begins_of_chain (by rw [holds.2]; rfl) rfl)
  | .array _ elements, _ => by
      simp only [print, lexemes]
      exact opens_bracketed (begins_of_chain rfl rfl)
  | .object _ properties, _ => by
      simp only [print, lexemes]
      exact opens_braced (begins_of_chain rfl rfl)
  | .paren _ inner, _ => by
      simp only [print, lexemes, String.append_assoc]
      exact (@Opens.first "(" _ '(' [] (.mark .leftParen) [] rfl (by decide) nofun
        (begins_of_chain rfl rfl)).append _ _
  | .arrow _ params body, _ => by
      simp only [print, lexemes, String.append_assoc]
      exact (@Opens.first "(" _ '(' [] (.mark .leftParen) [] rfl (by decide) nofun
        (begins_of_chain rfl rfl)).append _ _
  | .unary _ op argument, _ => by
      simp only [print, lexemes, String.append_assoc]
      exact (opens_unary op _ _).mono fun _ starts =>
        begins_of_operand starts rfl Precedence.unary_lt_postfixed
  | .update _ op .before argument, _ => by
      simp only [print, lexemes]
      exact (opens_update op _ _).mono fun _ starts =>
        begins_of_operand starts rfl Precedence.unary_lt_postfixed
  | .update _ op .after argument, ⟨holds, inside⟩ => by
      simp only [print, lexemes, group_tight holds.2.tight]
      exact opens_chain holds.2.toBinds (argument.opens inside) rfl _ _
  | .binary loc op left right, ⟨holds, inside, _⟩ => by
      have binds : ∃ level, left.Binds level := by
        change (Expr.binary loc op left right).Legible at holds
        rw [Expr.Legible] at holds
        split at holds
        · exact ⟨_, holds.1.toBinds⟩
        · exact ⟨_, holds.1.toBinds⟩
      rcases binds with ⟨level, binds⟩
      simp only [print_binary holds, lexemes, String.append_assoc]
      exact opens_left binds (left.opens inside) rfl (precedence_binary_lt loc op left right) _ _
  | .logical loc op left right, ⟨holds, inside, _⟩ => by
      simp only [print_logical holds, lexemes, String.append_assoc]
      exact opens_left holds.1.1.toBinds (left.opens inside) rfl
        (precedence_logical_lt loc op left right) _ _
  | .conditional _ test _ _, ⟨holds, inside, _⟩ => by
      simp only [print, lexemes, group_tight holds.1.tight, String.append_assoc]
      refine opens_left holds.1.toBinds (test.opens inside) rfl ?_ _ _
      exact Precedence.conditional_lt_postfixed
  | .assign _ op target value, ⟨holds, inside, _⟩ => by
      simp only [print, lexemes, group_tight holds.1.2.tight, String.append_assoc]
      refine opens_left holds.1.2.toBinds (target.opens inside) rfl ?_ _ _
      exact Precedence.assignment_lt_postfixed
  | .destructure _ _ pattern value, ⟨holds, _⟩ => by
      simp only [print, lexemes, String.append_assoc]
      apply Opens.append
      apply Pattern.opens holds.2.1
      · exact begins_of_operand rfl rfl Precedence.assignment_lt_postfixed
      · exact begins_of_operand rfl rfl Precedence.assignment_lt_postfixed
  | .sequence _ items, ⟨holds, inside⟩ => by
      simp only [print, lexemes]
      refine (opens_items items inside (fun item member => (holds.2 item member).toBinds)
        holds.1).mono fun _ starts =>
          begins_of_operand starts rfl Precedence.sequence_lt_postfixed
  | .member _ owner key _, ⟨holds, inside, _⟩ => by
      rw [print_member holds, lexemes]
      exact opens_chain holds.1.toBinds (owner.opens inside) rfl _ _
  | .call _ callee _ _, ⟨holds, inside, _⟩ => by
      rw [print_call holds, lexemes]
      exact opens_chain holds.1.toBinds (callee.opens inside) rfl _ _
  | .new loc callee arguments, ⟨holds, _⟩ => by
      have starts : Opens "new" [.word "new"] (Expr.new loc callee arguments).Begins :=
        opens_word (nameText_of_letters (by decide) (by decide)) []
          (begins_of_chain (by decide) rfl)
      have blank : "new " = "new" ++ " " := rfl
      rw [print_new holds, lexemes, blank, String.append_assoc]
      exact starts.append _ _
  | .tagged _ tag _ _ _, ⟨holds, inside, _⟩ => by
      rw [print_tagged holds, lexemes]
      exact opens_chain holds.1.1.toBinds (tag.opens inside) rfl _ _
  | .spread _ argument, _ => by
      simp only [print, lexemes]
      exact (@Opens.first "..." (· = .punctuator .dotDotDot) '.' ['.', '.'] (.mark .dotDotDot) []
        rfl (by decide) nofun rfl).append _ _

theorem opens_items : ∀ items : List Expr, itemsInside legible items →
    (∀ item ∈ items, item.Binds Precedence.assignment) → 2 ≤ items.length →
      Opens (", ".intercalate (printItems items)) (separated (itemsLexemes items))
        fun kind => kind.startsOperand = true
  | [], _, _, few => absurd few (by decide)
  | [item], _, _, few => absurd few (by simp)
  | first :: second :: items, ⟨inside, _⟩, binds, _ => by
      have bind := binds first (List.mem_cons_self ..)
      simp only [printItems, itemsLexemes, separated, String.intercalate_cons_cons,
        group_tight bind.tight, String.append_assoc]
      exact ((first.opens inside).append _ _).mono fun _ begins => begins.operand bind.notSpread

end

end Expr

end ExprScript
