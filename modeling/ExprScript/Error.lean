import ExprScript.Source.Position

/-!
Everything that can go wrong while a text is scanned, parsed or evaluated.
An error is a cause and a position; the kind and the wording of an error
depend on its cause alone.
-/

namespace ExprScript

inductive ErrorKind where
  | syntaxError
  | referenceError
  | typeError
  | rangeError
deriving DecidableEq, Repr

def ErrorKind.name : ErrorKind → String
  | .syntaxError => "SyntaxError"
  | .referenceError => "ReferenceError"
  | .typeError => "TypeError"
  | .rangeError => "RangeError"

inductive Cause where
  -- Tokens.
  | unterminatedComment
  | separatorNotAllowed
  | repeatedSeparator
  | trailingSeparator
  | separatorAfterZero
  | invalidUnicodeEscape
  | invalidHexEscape
  | invalidToken
  | invalidCharacter (c : Char)
  | octalEscapeInTemplate
  | digitEscapeInTemplate
  | unterminatedString
  | unterminatedTemplate
  | unterminatedRegExp
  | escapedKeyword
  | stalledScanner
  -- Tokens in the wrong place.
  | unexpectedEnd
  | unexpectedNumber
  | unexpectedString
  | unexpectedIdentifier (raw : String)
  | unexpectedTemplate
  | unexpectedToken (raw : String)
  -- Grammar.
  | mixedNullish
  | unexpectedOperator
  | missingOperand
  | unaryBeforePower
  | invalidAssignmentTarget
  | invalidPrefixTarget
  | invalidPostfixTarget
  | taggedOptionalChain
  | optionalChainFromNew
  | shorthandInitializer
  | invalidRegExpFlags (flags : String)
  | invalidPropertyKey
  | restParameterNotLast
  | restElementNotLast
  | arrowBlockBody
  | invalidDestructuringTarget
  | invalidParameter
  | duplicateParameter
  -- Strict mode.
  | octalLiteral
  | leadingZeroDecimal
  | strictReservedWord
  | octalEscape
  -- Building trees.
  | invalidRegExpPattern
  | invalidIdentifier (name : String)
  | invalidPropertyName (name : String)
  | templateShape
  | emptySequence
  -- Evaluation.
  | unexpectedSpread
  | notDefined (text : String)
  | notConstructor (text : String)
  | notFunction (text : String)
  | notIterable (text : String)
  | notCallable
  | readFromNullish (object key : String)
  | writeToNullish (object key : String)
  | searchInPrimitive (key object : String)
  | destructureNullish (text : String)
  | invalidArrayLength
  -- Functions of the host.
  | host (kind : ErrorKind) (text : String)
deriving DecidableEq, Repr

namespace Cause

def kind : Cause → ErrorKind
  | .notDefined _ => .referenceError
  | .notConstructor _ | .notFunction _ | .notIterable _ | .notCallable
  | .readFromNullish _ _ | .writeToNullish _ _ | .searchInPrimitive _ _
  | .destructureNullish _ => .typeError
  | .invalidArrayLength => .rangeError
  | .host kind _ => kind
  | _ => .syntaxError

def message : Cause → String
  | .unterminatedComment => "Unterminated block comment"
  | .separatorNotAllowed => "Numeric separators are not allowed here"
  | .repeatedSeparator => "Only one underscore is allowed as numeric separator"
  | .trailingSeparator => "Numeric separators are not allowed at the end of numeric literals"
  | .separatorAfterZero => "Numeric separator can not be used after leading 0"
  | .invalidUnicodeEscape => "Invalid Unicode escape sequence"
  | .invalidHexEscape => "Invalid hexadecimal escape sequence"
  | .invalidToken => "Invalid or unexpected token"
  | .invalidCharacter c => "Invalid or unexpected token '" ++ c.toString ++ "'"
  | .octalEscapeInTemplate => "Octal escape sequences are not allowed in template strings"
  | .digitEscapeInTemplate => "\\8 and \\9 are not allowed in template strings"
  | .unterminatedString => "Unterminated string literal"
  | .unterminatedTemplate => "Unterminated template literal"
  | .unterminatedRegExp => "Invalid regular expression: missing /"
  | .escapedKeyword => "Keyword must not contain escaped characters"
  | .stalledScanner => "Scanner failed to advance"
  | .unexpectedEnd => "Unexpected end of input"
  | .unexpectedNumber => "Unexpected number"
  | .unexpectedString => "Unexpected string"
  | .unexpectedIdentifier raw => "Unexpected identifier '" ++ raw ++ "'"
  | .unexpectedTemplate => "Unexpected template string"
  | .unexpectedToken raw => "Unexpected token '" ++ raw ++ "'"
  | .mixedNullish => "Cannot mix ?? with || or && without parentheses"
  | .unexpectedOperator => "Unexpected binary operator"
  | .missingOperand => "Missing operand"
  | .unaryBeforePower =>
    "Unary operator used immediately before exponentiation expression. " ++
      "Parenthesis must be used to disambiguate operator precedence"
  | .invalidAssignmentTarget => "Invalid left-hand side in assignment"
  | .invalidPrefixTarget => "Invalid left-hand side expression in prefix operation"
  | .invalidPostfixTarget => "Invalid left-hand side expression in postfix operation"
  | .taggedOptionalChain => "Invalid tagged template on optional chain"
  | .optionalChainFromNew => "Invalid optional chain from new expression"
  | .shorthandInitializer => "Invalid shorthand property initializer"
  | .invalidRegExpFlags flags => "Invalid regular expression flags '" ++ flags ++ "'"
  | .invalidPropertyKey => "Invalid property key"
  | .restParameterNotLast => "Rest parameter must be last formal parameter"
  | .restElementNotLast => "Rest element must be last element"
  | .arrowBlockBody => "Arrow function block bodies are not supported"
  | .invalidDestructuringTarget => "Invalid destructuring assignment target"
  | .invalidParameter => "Invalid parameter"
  | .duplicateParameter => "Duplicate parameter name not allowed in this context"
  | .octalLiteral => "Octal literals are not allowed in strict mode."
  | .leadingZeroDecimal => "Decimals with leading zeros are not allowed in strict mode."
  | .strictReservedWord => "Unexpected strict mode reserved word"
  | .octalEscape => "Octal escape sequences are not allowed in strict mode."
  | .invalidRegExpPattern => "Invalid regular expression: empty or starts with '*'"
  | .invalidIdentifier name => "Invalid identifier '" ++ name ++ "'"
  | .invalidPropertyName name => "Invalid property name '" ++ name ++ "'"
  | .templateShape => "Template needs exactly one more string than expressions"
  | .emptySequence => "Empty sequence expression"
  | .unexpectedSpread => "Unexpected spread element"
  | .notDefined text => text ++ " is not defined"
  | .notConstructor text => text ++ " is not a constructor"
  | .notFunction text => text ++ " is not a function"
  | .notIterable text => text ++ " is not iterable"
  | .notCallable => "Right-hand side of 'instanceof' is not callable"
  | .readFromNullish object key =>
    "Cannot read properties of " ++ object ++ " (reading '" ++ key ++ "')"
  | .writeToNullish object key =>
    "Cannot set properties of " ++ object ++ " (setting '" ++ key ++ "')"
  | .searchInPrimitive key object =>
    "Cannot use 'in' operator to search for '" ++ key ++ "' in " ++ object
  | .destructureNullish text => "Cannot destructure '" ++ text ++ "' as it is " ++ text ++ "."
  | .invalidArrayLength => "Invalid array length"
  | .host _ text => text

end Cause

/-- A failed operation and the place in the source that it is blamed on. -/
structure Error where
  cause : Cause
  position : Position := {}
deriving DecidableEq, Repr

namespace Error

def kind (error : Error) : ErrorKind := error.cause.kind

def message (error : Error) : String := error.cause.message

def anchoredAt (error : Error) (position : Position) : Error :=
  if error.position.isUnknown then { error with position } else error

def describe (error : Error) : String :=
  error.kind.name ++ ": " ++ error.message ++ " (line " ++ toString error.position.line ++
    ", column " ++ toString error.position.column ++ ")"

end Error

end ExprScript
