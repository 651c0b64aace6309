import ExprScript.Grammar.Expression
import ExprScript.Proofs.Token.Lexing
import ExprScript.Proofs.Tree.Canonical

/-! # Legible trees and their tokens

A legible tree is printed without added parentheses, and its words are read as
they are printed. `Expr.lexemes` are the tokens of its text.
-/

namespace ExprScript

open Reader Scanner

/-! ## Initializers that wait for a pattern -/

mutual

/-- Whether the expression can only be read as a pattern: a shorthand property in
it has an initializer. -/
def Expr.hasInitializer : Expr → Bool
  | .array _ elements => elementsHaveInitializer elements
  | .object _ properties => propertiesHaveInitializer properties
  | .spread _ argument => argument.hasInitializer
  | _ => false

def elementsHaveInitializer : List (Option Expr) → Bool
  | [] => false
  | none :: elements => elementsHaveInitializer elements
  | some item :: elements => item.hasInitializer || elementsHaveInitializer elements

def propertiesHaveInitializer : List Property → Bool
  | [] => false
  | .spread _ argument :: properties =>
    argument.hasInitializer || propertiesHaveInitializer properties
  | .field _ _ value shorthand :: properties =>
    (shorthand && value.isAssignment || value.hasInitializer) ||
      propertiesHaveInitializer properties

end

/-! ## Legible nodes -/

def Ident.Legible (id : Ident) : Prop :=
  NameText id.name.toList ∧ kindOfWord id.name = .identifier

/-- A number is written as it is printed, and read as the same number. -/
structure NumberLiteral.Legible (literal : NumberLiteral) : Prop where
  denotes : Number.Denotes (Number.print literal.value).toList literal.value
  spelled : literal.raw = Number.print literal.value

/-- The expression needs no parentheses where a level is demanded. -/
structure Expr.Binds (level : Nat) (expr : Expr) : Prop where
  notSpread : expr.isSpread = false
  tight : level ≤ expr.precedence

/-- The same, for a place that is not a part of a pattern. -/
structure Expr.Settles (level : Nat) (expr : Expr) : Prop extends Expr.Binds level expr where
  settled : expr.hasInitializer = false

theorem Expr.Binds.mono {low high : Nat} {expr : Expr} (binds : expr.Binds high)
    (within : low ≤ high) : expr.Binds low :=
  ⟨binds.notSpread, Nat.le_trans within binds.tight⟩

structure Expr.LegibleArgument (expr : Expr) : Prop where
  tight : Precedence.assignment ≤ expr.precedence
  settled : expr.hasInitializer = false

/-- The pieces of a template: one more than there are holes, and only the last one
is marked. -/
structure TemplateLegible (quasis : List Quasi) (holes : List Expr) : Prop where
  tails : quasis.map (·.tail) = List.replicate holes.length false ++ [true]
  texts : ∀ quasi ∈ quasis, TemplateText quasi.raw.toList quasi.cooked.toList
  holes : ∀ hole ∈ holes, hole.Settles Precedence.sequence

def PropertyKey.Legible : PropertyKey → Prop
  | .name id => NameText id.name.toList
  | .string _ => True
  | .number literal => literal.Legible
  | .computed key => key.Settles Precedence.assignment

/-- A shorthand property is a name, and has an initializer if it is a part of a
pattern. -/
def Property.Legible : Property → Prop
  | .field _ key value shorthand =>
    key.Legible ∧ value.Binds Precedence.assignment ∧
      (shorthand = true → ∃ id, key = .name id ∧
        (value = .ident id ∨ ∃ loc fallback, value = .assign loc .plain (.ident id) fallback))
  | .spread _ argument => argument.Binds Precedence.assignment

def MemberKey.Legible (owner : Expr) : MemberKey → Prop
  | .name id => NameText id.name.toList ∧ owner.isNumber = false
  | .computed key => key.Settles Precedence.sequence

structure ParametersLegible (params : List Pattern) : Prop where
  rest : ∀ param ∈ params.dropLast, param.kind ≠ .restElement
  distinct : firstRepeated [] (params.flatMap Pattern.boundNames) = none

def Expr.Legible : Expr → Prop
  | .null _ | .boolean _ _ | .string _ | .this _ => True
  | .number literal => literal.Legible ∧ Number.precedence literal.value = Precedence.primary
  | .regExp _ pattern flags =>
    RegExpText pattern.toList flags.toList ∧ Parse.validRegExpFlags flags.toList = true
  | .template _ quasis holes => TemplateLegible quasis holes
  | .ident id => id.Legible
  | .array _ elements => ∀ item, some item ∈ elements → Precedence.assignment ≤ item.precedence
  | .object _ properties => ∀ property ∈ properties, property.Legible
  | .paren _ inner => inner.Settles Precedence.sequence
  | .arrow _ params body =>
    ParametersLegible params ∧ body.Settles Precedence.assignment ∧
      startsWith body.print '\x7b' = false
  | .unary _ _ argument => argument.Settles Precedence.unary
  | .update _ _ .before argument =>
    argument.isSimpleTarget = true ∧ argument.Settles Precedence.unary
  | .update _ _ .after argument =>
    argument.isSimpleTarget = true ∧ argument.Settles Precedence.call
  | .binary _ op left right =>
    if op = .arithmetic .exp then
      left.Settles Precedence.postfixed ∧ right.Settles op.precedence
    else left.Settles op.precedence ∧ right.Settles (op.precedence + 1)
  | .logical _ op left right =>
    (left.Settles op.precedence ∧ op.conflictsWith left = false) ∧
      right.Settles (op.precedence + 1) ∧ op.conflictsWith right = false
  | .conditional _ test consequent alternate =>
    test.Settles Precedence.nullishOr ∧ consequent.Settles Precedence.assignment ∧
      alternate.Settles Precedence.assignment
  | .assign _ _ target value =>
    (target.isSimpleTarget = true ∧ target.Settles Precedence.call) ∧
      value.Settles Precedence.assignment
  | .destructure _ op pattern value =>
    op = .plain ∧ pattern.isComposite = true ∧ value.Settles Precedence.assignment
  | .sequence _ items => 2 ≤ items.length ∧ ∀ item ∈ items, item.Settles Precedence.assignment
  | .member _ owner key _ => owner.Settles Precedence.call ∧ key.Legible owner
  | .call _ callee arguments _ =>
    callee.Settles Precedence.call ∧ ∀ argument ∈ arguments, argument.LegibleArgument
  | .new _ callee arguments =>
    (callee.Settles Precedence.call ∧ callee.callsBeforeNew = false) ∧
      ∀ argument ∈ arguments, argument.LegibleArgument
  | .tagged _ tag _ quasis holes =>
    (tag.Settles Precedence.call ∧ tag.isOptionalChain = false) ∧ TemplateLegible quasis holes
  | .spread _ argument => argument.Binds Precedence.assignment

def PatternProperty.Legible : PatternProperty → Prop
  | .field _ key value shorthand =>
    key.Legible ∧ value.kind ≠ .restElement ∧
      (shorthand = true → ∃ id, key = .name id ∧
        (value = .ident id ∨ ∃ loc fallback, value = .withDefault loc (.ident id) fallback))
  | .rest _ argument => ∃ id, argument = .ident id

def Pattern.Legible : Pattern → Prop
  | .ident id => id.Legible
  | .array _ elements =>
    ∀ pattern, some pattern ∈ elements.dropLast → pattern.kind ≠ .restElement
  | .object _ properties =>
    (∀ property ∈ properties, property.Legible) ∧
      ∀ loc argument, PatternProperty.rest loc argument ∉ properties.dropLast
  | .rest _ argument => argument.isTarget = true
  | .withDefault _ target value =>
    target.isTarget = true ∧ value.Settles Precedence.assignment

def legible : Condition where
  expr := Expr.Legible
  pattern := Pattern.Legible

/-! ## The tokens of operators -/

def UnaryOp.lexeme : UnaryOp → Lexeme
  | .minus => .mark .minus
  | .plus => .mark .plus
  | .not => .mark .bang
  | .bitNot => .mark .tilde
  | .typeof => .word "typeof"
  | .void => .word "void"

def UpdateOp.mark : UpdateOp → Punctuator
  | .increment => .plusPlus
  | .decrement => .minusMinus

def ArithmeticOp.mark : ArithmeticOp → Punctuator
  | .add => .plus
  | .sub => .minus
  | .mul => .star
  | .div => .slash
  | .rem => .percent
  | .exp => .starStar
  | .shiftLeft => .lessLess
  | .shiftRight => .greaterGreater
  | .shiftRightUnsigned => .greaterGreaterGreater
  | .bitOr => .pipe
  | .bitXor => .caret
  | .bitAnd => .ampersand

def BinaryOp.lexeme : BinaryOp → Lexeme
  | .arithmetic op => .mark op.mark
  | .equal => .mark .equalEqual
  | .notEqual => .mark .bangEqual
  | .strictEqual => .mark .equalEqualEqual
  | .strictNotEqual => .mark .bangEqualEqual
  | .less => .mark .less
  | .lessEqual => .mark .lessEqual
  | .greater => .mark .greater
  | .greaterEqual => .mark .greaterEqual
  | .isIn => .word "in"
  | .isInstance => .word "instanceof"

def LogicalOp.mark : LogicalOp → Punctuator
  | .and => .ampersandAmpersand
  | .or => .pipePipe
  | .nullish => .questionQuestion

def AssignOp.mark : AssignOp → Punctuator
  | .plain => .equal
  | .arithmetic op =>
    match op with
    | .add => .plusEqual
    | .sub => .minusEqual
    | .mul => .starEqual
    | .div => .slashEqual
    | .rem => .percentEqual
    | .exp => .starStarEqual
    | .shiftLeft => .lessLessEqual
    | .shiftRight => .greaterGreaterEqual
    | .shiftRightUnsigned => .greaterGreaterGreaterEqual
    | .bitOr => .pipeEqual
    | .bitXor => .caretEqual
    | .bitAnd => .ampersandEqual
  | .logical op =>
    match op with
    | .and => .ampersandAmpersandEqual
    | .or => .pipePipeEqual
    | .nullish => .questionQuestionEqual

/-! ## The tokens of a tree -/

def separated : List (List Lexeme) → List Lexeme
  | [] => []
  | [last] => last
  | first :: second :: others => first ++ .mark .comma :: separated (second :: others)

def separatedElements : List (Option (List Lexeme)) → List Lexeme
  | [] => []
  | none :: others => .mark .comma :: separatedElements others
  | [some last] => last
  | some first :: second :: others =>
    first ++ .mark .comma :: separatedElements (second :: others)

def templateLexemes (opened : Bool) : List Quasi → List (List Lexeme) → List Lexeme
  | [], _ => []
  | quasi :: _, [] =>
    [.piece (if opened then .templateTail else .noSubstitutionTemplate) quasi.cooked quasi.raw]
  | quasi :: quasis, hole :: holes =>
    .piece (if opened then .templateMiddle else .templateHead) quasi.cooked quasi.raw ::
      (hole ++ templateLexemes true quasis holes)

def optionalLexemes (optional : Bool) : List Lexeme :=
  if optional then [.mark .questionDot] else []

def enclosed (left right : Punctuator) (inner : List Lexeme) : List Lexeme :=
  .mark left :: (inner ++ [.mark right])

mutual

def Expr.lexemes : Expr → List Lexeme
  | .null _ => [.word "null"]
  | .boolean _ value => [.word (if value then "true" else "false")]
  | .number literal => [.number literal.value]
  | .string literal => [.string literal.value]
  | .regExp _ pattern flags => [.regExp pattern flags]
  | .template _ quasis holes => templateLexemes false quasis (itemsLexemes holes)
  | .ident id => [.word id.name]
  | .this _ => [.word "this"]
  | .array _ elements =>
    enclosed .leftBracket .rightBracket (separatedElements (elementsLexemes elements))
  | .object _ properties =>
    enclosed .leftBrace .rightBrace (separated (propertiesLexemes properties))
  | .paren _ inner => enclosed .leftParen .rightParen inner.lexemes
  | .arrow _ params body =>
    enclosed .leftParen .rightParen (separated (patternsLexemes params)) ++
      .mark .arrow :: body.lexemes
  | .unary _ op argument => op.lexeme :: argument.lexemes
  | .update _ op .before argument => .mark op.mark :: argument.lexemes
  | .update _ op .after argument => argument.lexemes ++ [.mark op.mark]
  | .binary _ op left right => left.lexemes ++ op.lexeme :: right.lexemes
  | .logical _ op left right => left.lexemes ++ .mark op.mark :: right.lexemes
  | .conditional _ test consequent alternate =>
    test.lexemes ++ .mark .question :: (consequent.lexemes ++ .mark .colon :: alternate.lexemes)
  | .assign _ op target value => target.lexemes ++ .mark op.mark :: value.lexemes
  | .destructure _ op pattern value => pattern.lexemes ++ .mark op.mark :: value.lexemes
  | .sequence _ items => separated (itemsLexemes items)
  | .member _ owner key optional => owner.lexemes ++ key.lexemes optional
  | .call _ callee arguments optional =>
    callee.lexemes ++ (optionalLexemes optional ++
      enclosed .leftParen .rightParen (separated (itemsLexemes arguments)))
  | .new _ callee arguments =>
    .word "new" :: (callee.lexemes ++
      enclosed .leftParen .rightParen (separated (itemsLexemes arguments)))
  | .tagged _ tag _ quasis holes =>
    tag.lexemes ++ templateLexemes false quasis (itemsLexemes holes)
  | .spread _ argument => .mark .dotDotDot :: argument.lexemes

def itemsLexemes : List Expr → List (List Lexeme)
  | [] => []
  | item :: items => item.lexemes :: itemsLexemes items

def elementsLexemes : List (Option Expr) → List (Option (List Lexeme))
  | [] => []
  | none :: elements => none :: elementsLexemes elements
  | some item :: elements => some item.lexemes :: elementsLexemes elements

def Property.lexemes : Property → List Lexeme
  | .spread _ argument => .mark .dotDotDot :: argument.lexemes
  | .field _ key value shorthand =>
    if shorthand then value.lexemes else key.lexemes ++ .mark .colon :: value.lexemes

def propertiesLexemes : List Property → List (List Lexeme)
  | [] => []
  | property :: properties => property.lexemes :: propertiesLexemes properties

def PropertyKey.lexemes : PropertyKey → List Lexeme
  | .name id => [.word id.name]
  | .string literal => [.string literal.value]
  | .number literal => [.number literal.value]
  | .computed key => enclosed .leftBracket .rightBracket key.lexemes

def MemberKey.lexemes (optional : Bool) : MemberKey → List Lexeme
  | .name id => [.mark (if optional then .questionDot else .dot), .word id.name]
  | .computed key =>
    optionalLexemes optional ++ enclosed .leftBracket .rightBracket key.lexemes

def Pattern.lexemes : Pattern → List Lexeme
  | .ident id => [.word id.name]
  | .array _ elements =>
    enclosed .leftBracket .rightBracket (separatedElements (patternElementsLexemes elements))
  | .object _ properties =>
    enclosed .leftBrace .rightBrace (separated (patternPropertiesLexemes properties))
  | .rest _ argument => .mark .dotDotDot :: argument.lexemes
  | .withDefault _ target value => target.lexemes ++ .mark .equal :: value.lexemes

def patternsLexemes : List Pattern → List (List Lexeme)
  | [] => []
  | pattern :: patterns => pattern.lexemes :: patternsLexemes patterns

def patternElementsLexemes : List (Option Pattern) → List (Option (List Lexeme))
  | [] => []
  | none :: elements => none :: patternElementsLexemes elements
  | some pattern :: elements => some pattern.lexemes :: patternElementsLexemes elements

def PatternProperty.lexemes : PatternProperty → List Lexeme
  | .rest _ argument => .mark .dotDotDot :: argument.lexemes
  | .field _ key value shorthand =>
    if shorthand then value.lexemes else key.lexemes ++ .mark .colon :: value.lexemes

def patternPropertiesLexemes : List PatternProperty → List (List Lexeme)
  | [] => []
  | property :: properties => property.lexemes :: patternPropertiesLexemes properties

end

/-! ## Parts have fewer tokens than the whole -/

theorem itemsLexemes_eq_map (items : List Expr) : itemsLexemes items = items.map Expr.lexemes := by
  induction items with
  | nil => rfl
  | cons item items induction => rw [itemsLexemes, induction, List.map_cons]

theorem elementsLexemes_eq_map (elements : List (Option Expr)) :
    elementsLexemes elements = elements.map (Option.map Expr.lexemes) := by
  induction elements with
  | nil => rfl
  | cons element elements induction => cases element <;> rw [elementsLexemes, induction] <;> rfl

theorem propertiesLexemes_eq_map (properties : List Property) :
    propertiesLexemes properties = properties.map Property.lexemes := by
  induction properties with
  | nil => rfl
  | cons property properties induction => rw [propertiesLexemes, induction, List.map_cons]

theorem patternsLexemes_eq_map (patterns : List Pattern) :
    patternsLexemes patterns = patterns.map Pattern.lexemes := by
  induction patterns with
  | nil => rfl
  | cons pattern patterns induction => rw [patternsLexemes, induction, List.map_cons]

theorem length_enclosed (left right : Punctuator) (inner : List Lexeme) :
    (enclosed left right inner).length = inner.length + 2 := by
  simp [enclosed]

theorem length_le_separated {lists : List (List Lexeme)} {list : List Lexeme}
    (member : list ∈ lists) : list.length ≤ (separated lists).length := by
  induction lists with
  | nil => cases member
  | cons first lists induction =>
      cases lists with
      | nil =>
          cases List.mem_singleton.mp member
          rw [separated]
      | cons second lists =>
          rw [separated, List.length_append, List.length_cons]
          rcases List.mem_cons.mp member with rfl | member
          · omega
          · have later := induction member
            omega

theorem length_lt_separated {lists : List (List Lexeme)} (several : 2 ≤ lists.length)
    {list : List Lexeme} (member : list ∈ lists) : list.length < (separated lists).length := by
  cases lists with
  | nil => cases member
  | cons first lists =>
      cases lists with
      | nil => simp at several
      | cons second lists =>
          rw [separated, List.length_append, List.length_cons]
          rcases List.mem_cons.mp member with rfl | member
          · omega
          · have later := length_le_separated member
            omega

theorem length_le_separatedElements {lists : List (Option (List Lexeme))} {list : List Lexeme}
    (member : some list ∈ lists) : list.length ≤ (separatedElements lists).length := by
  induction lists with
  | nil => cases member
  | cons first lists induction =>
      cases first with
      | none =>
          have later := induction (by simpa using member)
          rw [separatedElements, List.length_cons]
          omega
      | some first =>
          cases lists with
          | nil =>
              cases List.mem_singleton.mp member
              rw [separatedElements]
          | cons second lists =>
              rw [separatedElements, List.length_append, List.length_cons]
              rcases List.mem_cons.mp member with equal | member
              · cases equal
                omega
              · have later := induction member
                omega

theorem length_lt_templateLexemes {quasis : List Quasi} {holes : List (List Lexeme)}
    (count : quasis.length = holes.length + 1) (opened : Bool) {hole : List Lexeme}
    (member : hole ∈ holes) : hole.length < (templateLexemes opened quasis holes).length := by
  induction holes generalizing quasis opened with
  | nil => cases member
  | cons first holes induction =>
      cases quasis with
      | nil => cases count
      | cons quasi quasis =>
          rw [templateLexemes, List.length_cons, List.length_append]
          rcases List.mem_cons.mp member with rfl | member
          · omega
          · have later := induction (by simpa using count) true member
            omega

theorem length_templateLexemes_pos {quasis : List Quasi} (some : 0 < quasis.length) (opened : Bool)
    (holes : List (List Lexeme)) : 0 < (templateLexemes opened quasis holes).length := by
  cases quasis with
  | nil => cases some
  | cons quasi quasis => cases holes <;> simp [templateLexemes]

theorem TemplateLegible.count {quasis : List Quasi} {holes : List Expr}
    (legible : TemplateLegible quasis holes) : quasis.length = holes.length + 1 := by
  have lengths := congrArg List.length legible.tails
  simpa using lengths

end ExprScript
