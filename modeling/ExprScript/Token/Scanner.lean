import ExprScript.Token.Name
import ExprScript.Token.Numeral
import ExprScript.Token.Trivia

/-!
The scanner: one token at a time, and the token for the end of the input again
and again once the text is used up. A slash always comes back as an operator;
the grammar asks for a regular expression where an operand has to start.
-/

namespace ExprScript

inductive Brace where
  | block
  /-- A hole of a template; the brace that closes it resumes template text. -/
  | hole
deriving DecidableEq, Repr

structure Scanner where
  /-- The whole text, to read a part of it again. -/
  source : List Char
  cursor : Cursor
  /-- The open braces, the innermost first. -/
  braces : List Brace := []

abbrev Scan := EStateM Error Scanner

namespace Scanner

def ofString (source : String) : Scanner :=
  { source := source.toList, cursor := .ofString source }

def isAtEnd (scanner : Scanner) : Bool := scanner.cursor.rest.isEmpty

def cursorAt (scanner : Scanner) (position : Position) (lineStart : Nat) : Cursor :=
  { rest := dropBytes position.offset scanner.source, position, lineStart }

def read {α : Type} (reader : Reader α) : Scan α := fun scanner =>
  match reader.run scanner.cursor with
  | .ok result cursor => .ok result { scanner with cursor }
  | .error error cursor => .error error { scanner with cursor }

/-- The longest punctuator that a text starts with. A question mark, a point
and a digit are no optional link but a conditional and a number. -/
def punctuatorOf? (text : List Char) : Option Punctuator :=
  Punctuator.longestFirst.find? fun mark =>
    let spelling := mark.spelling.toList
    spelling.isPrefixOf text &&
      !(mark == .questionDot && (text.drop spelling.length).head?.any Char.isDigit)

def noteBrace (mark : Punctuator) : Scan Unit :=
  modify fun scanner =>
    match mark with
    | .leftBrace => { scanner with braces := .block :: scanner.braces }
    | .rightBrace => { scanner with braces := scanner.braces.tail }
    | _ => scanner

def scanPunctuator (start : Position) : Scan TokenKind := do
  let text := (← get).cursor.rest
  match punctuatorOf? text with
  | some mark =>
    read (Reader.skipMany mark.spelling.length)
    noteBrace mark
    return .punctuator mark
  | none => throw { cause := .invalidCharacter (text.head?.getD '\x00'), position := start }

/-- Scans template text after a backquote or after the brace that closes a
hole. The kind of the token depends on whether another hole follows. -/
def scanTemplate (start : Position) (withHole withoutHole : TokenKind) :
    Scan (TokenKind × Payload) := do
  let piece ← read (do Reader.skip; Reader.readTemplatePiece start)
  let payload := Payload.template piece.cooked piece.raw
  if piece.opensHole then
    modify fun scanner => { scanner with braces := .hole :: scanner.braces }
    return (withHole, payload)
  else
    return (withoutHole, payload)

abbrev Lexeme := TokenKind × Payload × Bool

def scanNumber (start : Position) : Scan Lexeme := do
  let (number, octal) ← read (Reader.readNumeral start)
  return (.numericLiteral, .number number, octal)

def scanLexeme (start : Position) (first : Char) : Scan Lexeme := do
  let scanner ← get
  let nextIsDigit := scanner.cursor.peekSecond?.any Char.isDigit
  if first == '\x22' || first == '\x27' then
    let (contents, octal) ← read (Reader.readString start)
    return (.stringLiteral, .text contents, octal)
  else if first == '\x60' then
    let (kind, payload) ← scanTemplate start .templateHead .noSubstitutionTemplate
    return (kind, payload, false)
  else if first == '\x7d' && scanner.braces.head? == some .hole then
    set { scanner with braces := scanner.braces.tail }
    let (kind, payload) ← scanTemplate start .templateMiddle .templateTail
    return (kind, payload, false)
  else if first.isDigit || (first == '.' && nextIsDigit) then
    scanNumber start
  else if Text.isNameStart first || first == '\\' then
    let (kind, name) ← read (Reader.readName start)
    return (kind, .text name, false)
  else
    return (← scanPunctuator start, .none, false)

def next : Scan Token := do
  let newlineBefore ← read Reader.skipTrivia
  let before := (← get).cursor
  let start := before.position
  let lineStart := before.lineStart
  match before.peek? with
  | none =>
    return { kind := .endOfInput, raw := "", span := { start, stop := start }, lineStart,
             newlineBefore }
  | some first =>
    let (kind, payload, octal) ← scanLexeme start first
    let after := (← get).cursor
    if after.position.offset == start.offset then
      throw { cause := .stalledScanner, position := start }
    return { kind, payload, raw := before.textUntil after,
             span := { start, stop := after.position }, lineStart, octal, newlineBefore }

/-- Reads the body of a regular expression up to the slash that closes it. A
slash inside of brackets does not. -/
def readRegExpBody (start : Position) : Reader Unit :=
  Reader.loop (fun inClass => do
    match ← Reader.peek? with
    | none => Reader.fail .unterminatedRegExp start
    | some c =>
      if Text.isLineTerminator c then Reader.fail .unterminatedRegExp start
      else if c == '[' then
        Reader.skip
        return .again true
      else if c == ']' then
        Reader.skip
        return .again false
      else if c == '/' && !inClass then return .done ()
      else if c == '\\' then
        Reader.skip
        match ← Reader.peek? with
        | some escaped =>
          if Text.isLineTerminator escaped then Reader.fail .unterminatedRegExp start
          Reader.skip
          return .again inClass
        | none => Reader.fail .unterminatedRegExp start
      else
        Reader.skip
        return .again inClass) false

def readRegExp (start : Position) : Reader (String × String) := do
  Reader.skip
  let (_, pattern) ← Reader.capture (readRegExpBody start)
  Reader.skip
  let (_, flags) ← Reader.capture (Reader.skipWhile Text.isNamePart)
  return (pattern, flags)

/-- Reads a slash that was scanned as an operator again, as the start of a
regular expression. -/
def rescanRegExp (slash : Token) : Scan Token := do
  let start := slash.span.start
  let before := (← get).cursorAt start slash.lineStart
  modify fun scanner => { scanner with cursor := before }
  let (pattern, flags) ← read (readRegExp start)
  let after := (← get).cursor
  return { kind := .regExpLiteral, payload := .regExp pattern flags,
           raw := before.textUntil after, span := { start, stop := after.position },
           lineStart := slash.lineStart, newlineBefore := slash.newlineBefore }

def allTokens : Scan (List Token) := do
  let stalled := do throw { cause := .stalledScanner, position := (← get).cursor.position }
  let reversed ← repeatWithin stalled (fun (reversed : List Token) => do
    let token ← next
    if token.kind == .endOfInput then return .done reversed
    else return .again (token :: reversed)) ((← get).cursor.rest.length + 1) []
  return reversed.reverse

end Scanner

/-- All tokens of a text. No slash starts a regular expression here, because
only the grammar can tell. -/
def tokenize (source : String) : Except Error (List Token) :=
  match Scanner.allTokens.run (.ofString source) with
  | .ok tokens _ => .ok tokens
  | .error error _ => .error error

end ExprScript
