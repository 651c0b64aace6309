import ExprScript.Error

/-!
Tokens: what the scanner makes of the source text.
-/

namespace ExprScript

/-- Words that can never be names. All words that only statements use count as
one: the grammar of expressions has no place for any of them. -/
inductive Keyword where
  | trueWord
  | falseWord
  | nullWord
  | inWord
  | instanceofWord
  | newWord
  | thisWord
  | typeofWord
  | voidWord
  | reservedWord
deriving DecidableEq, Repr

namespace Keyword

def statementWords : List String :=
  ["break", "case", "catch", "class", "const", "continue", "debugger", "default", "delete",
   "do", "else", "enum", "export", "extends", "finally", "for", "function", "if", "import",
   "return", "super", "switch", "throw", "try", "var", "while", "with"]

def ofWord? (word : String) : Option Keyword :=
  match word with
  | "true" => some .trueWord
  | "false" => some .falseWord
  | "null" => some .nullWord
  | "in" => some .inWord
  | "instanceof" => some .instanceofWord
  | "new" => some .newWord
  | "this" => some .thisWord
  | "typeof" => some .typeofWord
  | "void" => some .voidWord
  | _ => if statementWords.contains word then some .reservedWord else none

def name : Keyword → String
  | .trueWord => "True"
  | .falseWord => "False"
  | .nullWord => "Null"
  | .inWord => "In"
  | .instanceofWord => "Instanceof"
  | .newWord => "New"
  | .thisWord => "This"
  | .typeofWord => "Typeof"
  | .voidWord => "Void"
  | .reservedWord => "ReservedWord"

end Keyword

inductive Punctuator where
  | leftBrace
  | rightBrace
  | leftParen
  | rightParen
  | leftBracket
  | rightBracket
  | dot
  | dotDotDot
  | semicolon
  | comma
  | less
  | greater
  | lessEqual
  | greaterEqual
  | equalEqual
  | bangEqual
  | equalEqualEqual
  | bangEqualEqual
  | plus
  | minus
  | star
  | starStar
  | slash
  | percent
  | plusPlus
  | minusMinus
  | lessLess
  | greaterGreater
  | greaterGreaterGreater
  | ampersand
  | pipe
  | caret
  | bang
  | tilde
  | ampersandAmpersand
  | pipePipe
  | questionQuestion
  | question
  | colon
  | equal
  | plusEqual
  | minusEqual
  | starEqual
  | starStarEqual
  | slashEqual
  | percentEqual
  | lessLessEqual
  | greaterGreaterEqual
  | greaterGreaterGreaterEqual
  | ampersandEqual
  | pipeEqual
  | caretEqual
  | ampersandAmpersandEqual
  | pipePipeEqual
  | questionQuestionEqual
  | arrow
  | questionDot
deriving DecidableEq, Repr

namespace Punctuator

def spelling : Punctuator → String
  | .leftBrace => "\x7b"
  | .rightBrace => "\x7d"
  | .leftParen => "("
  | .rightParen => ")"
  | .leftBracket => "["
  | .rightBracket => "]"
  | .dot => "."
  | .dotDotDot => "..."
  | .semicolon => ";"
  | .comma => ","
  | .less => "<"
  | .greater => ">"
  | .lessEqual => "<="
  | .greaterEqual => ">="
  | .equalEqual => "=="
  | .bangEqual => "!="
  | .equalEqualEqual => "==="
  | .bangEqualEqual => "!=="
  | .plus => "+"
  | .minus => "-"
  | .star => "*"
  | .starStar => "**"
  | .slash => "/"
  | .percent => "%"
  | .plusPlus => "++"
  | .minusMinus => "--"
  | .lessLess => "<<"
  | .greaterGreater => ">>"
  | .greaterGreaterGreater => ">>>"
  | .ampersand => "&"
  | .pipe => "|"
  | .caret => "^"
  | .bang => "!"
  | .tilde => "~"
  | .ampersandAmpersand => "&&"
  | .pipePipe => "||"
  | .questionQuestion => "??"
  | .question => "?"
  | .colon => ":"
  | .equal => "="
  | .plusEqual => "+="
  | .minusEqual => "-="
  | .starEqual => "*="
  | .starStarEqual => "**="
  | .slashEqual => "/="
  | .percentEqual => "%="
  | .lessLessEqual => "<<="
  | .greaterGreaterEqual => ">>="
  | .greaterGreaterGreaterEqual => ">>>="
  | .ampersandEqual => "&="
  | .pipeEqual => "|="
  | .caretEqual => "^="
  | .ampersandAmpersandEqual => "&&="
  | .pipePipeEqual => "||="
  | .questionQuestionEqual => "??="
  | .arrow => "=>"
  | .questionDot => "?."

def name : Punctuator → String
  | .leftBrace => "LeftBrace"
  | .rightBrace => "RightBrace"
  | .leftParen => "LeftParen"
  | .rightParen => "RightParen"
  | .leftBracket => "LeftBracket"
  | .rightBracket => "RightBracket"
  | .dot => "Dot"
  | .dotDotDot => "DotDotDot"
  | .semicolon => "Semicolon"
  | .comma => "Comma"
  | .less => "Less"
  | .greater => "Greater"
  | .lessEqual => "LessEqual"
  | .greaterEqual => "GreaterEqual"
  | .equalEqual => "EqualEqual"
  | .bangEqual => "BangEqual"
  | .equalEqualEqual => "EqualEqualEqual"
  | .bangEqualEqual => "BangEqualEqual"
  | .plus => "Plus"
  | .minus => "Minus"
  | .star => "Star"
  | .starStar => "StarStar"
  | .slash => "Slash"
  | .percent => "Percent"
  | .plusPlus => "PlusPlus"
  | .minusMinus => "MinusMinus"
  | .lessLess => "LessLess"
  | .greaterGreater => "GreaterGreater"
  | .greaterGreaterGreater => "GreaterGreaterGreater"
  | .ampersand => "Ampersand"
  | .pipe => "Pipe"
  | .caret => "Caret"
  | .bang => "Bang"
  | .tilde => "Tilde"
  | .ampersandAmpersand => "AmpersandAmpersand"
  | .pipePipe => "PipePipe"
  | .questionQuestion => "QuestionQuestion"
  | .question => "Question"
  | .colon => "Colon"
  | .equal => "Equal"
  | .plusEqual => "PlusEqual"
  | .minusEqual => "MinusEqual"
  | .starEqual => "StarEqual"
  | .starStarEqual => "StarStarEqual"
  | .slashEqual => "SlashEqual"
  | .percentEqual => "PercentEqual"
  | .lessLessEqual => "LessLessEqual"
  | .greaterGreaterEqual => "GreaterGreaterEqual"
  | .greaterGreaterGreaterEqual => "GreaterGreaterGreaterEqual"
  | .ampersandEqual => "AmpersandEqual"
  | .pipeEqual => "PipeEqual"
  | .caretEqual => "CaretEqual"
  | .ampersandAmpersandEqual => "AmpersandAmpersandEqual"
  | .pipePipeEqual => "PipePipeEqual"
  | .questionQuestionEqual => "QuestionQuestionEqual"
  | .arrow => "Arrow"
  | .questionDot => "QuestionDot"

/-- All punctuators, the longer ones first, so that the first one that a text
starts with is also the longest. -/
def longestFirst : List Punctuator :=
  [.greaterGreaterGreaterEqual,
   .equalEqualEqual, .bangEqualEqual, .starStarEqual, .lessLessEqual, .greaterGreaterEqual,
   .greaterGreaterGreater, .dotDotDot, .ampersandAmpersandEqual, .pipePipeEqual,
   .questionQuestionEqual,
   .arrow, .equalEqual, .bangEqual, .lessEqual, .greaterEqual, .ampersandAmpersand, .pipePipe,
   .questionQuestion, .questionDot, .plusPlus, .minusMinus, .plusEqual, .minusEqual,
   .starEqual, .slashEqual, .percentEqual, .ampersandEqual, .pipeEqual, .caretEqual,
   .lessLess, .greaterGreater, .starStar,
   .leftBrace, .rightBrace, .leftParen, .rightParen, .leftBracket, .rightBracket, .dot,
   .semicolon, .comma, .less, .greater, .plus, .minus, .star, .slash, .percent, .ampersand,
   .pipe, .caret, .bang, .tilde, .question, .colon, .equal]

example : longestFirst.length = 57 := rfl

end Punctuator

inductive TokenKind where
  | numericLiteral
  | stringLiteral
  /-- A template without holes. -/
  | noSubstitutionTemplate
  /-- Template text up to the first hole. -/
  | templateHead
  /-- Template text between two holes. -/
  | templateMiddle
  /-- Template text after the last hole. -/
  | templateTail
  /-- Produced only when the grammar asks for it. -/
  | regExpLiteral
  | identifier
  | keyword (word : Keyword)
  | punctuator (mark : Punctuator)
  | endOfInput
deriving DecidableEq, Repr

namespace TokenKind

def isKeyword : TokenKind → Bool
  | .keyword _ => true
  | _ => false

def isTemplate : TokenKind → Bool
  | .noSubstitutionTemplate | .templateHead | .templateMiddle | .templateTail => true
  | _ => false

def opensTemplate : TokenKind → Bool
  | .noSubstitutionTemplate | .templateHead => true
  | _ => false

def resumesTemplate : TokenKind → Bool
  | .templateMiddle | .templateTail => true
  | _ => false

def name : TokenKind → String
  | .numericLiteral => "NumericLiteral"
  | .stringLiteral => "StringLiteral"
  | .noSubstitutionTemplate => "NoSubstitutionTemplate"
  | .templateHead => "TemplateHead"
  | .templateMiddle => "TemplateMiddle"
  | .templateTail => "TemplateTail"
  | .regExpLiteral => "RegExpLiteral"
  | .identifier => "Identifier"
  | .keyword word => word.name
  | .punctuator mark => mark.name
  | .endOfInput => "Eof"

end TokenKind

inductive Payload where
  | none
  /-- The name of an identifier or keyword with escapes resolved, or the
  contents of a string. -/
  | text (value : String)
  | number (value : Float)
  /-- One piece of template text: with escapes interpreted, and as written
  except for line ends. -/
  | template (cooked raw : String)
  | regExp (pattern flags : String)

structure Token where
  kind : TokenKind
  payload : Payload := .none
  /-- The text of the token, escapes and all. -/
  raw : String
  span : Span
  /-- The offset of the line that the token starts on. -/
  lineStart : Nat
  /-- Set on numbers with a leading zero and on strings with an octal escape,
  which strict mode refuses. -/
  octal : Bool := false
  /-- A line break separates the token from the one before it. -/
  newlineBefore : Bool

namespace Token

def text (token : Token) : String :=
  match token.payload with
  | .text value => value
  | _ => token.raw

def isName (token : Token) : Bool :=
  token.kind == .identifier || token.kind.isKeyword

def endsTemplate (token : Token) : Bool :=
  token.kind == .noSubstitutionTemplate || token.kind == .templateTail

def unexpectedCause (token : Token) : Cause :=
  match token.kind with
  | .endOfInput => .unexpectedEnd
  | .numericLiteral => .unexpectedNumber
  | .stringLiteral => .unexpectedString
  | .identifier => .unexpectedIdentifier token.raw
  | kind => if kind.isTemplate then .unexpectedTemplate else .unexpectedToken token.raw

def unexpected (token : Token) : Error :=
  { cause := token.unexpectedCause, position := token.span.start }

end Token

end ExprScript
