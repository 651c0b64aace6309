import ExprScript.Number.Reading
import ExprScript.Source.Cursor

/-!
Quoted text: escapes, strings and the text of templates.
-/

namespace ExprScript.Reader

/-- The character of a code point; code points that are no characters, which
are the surrogates, become the replacement character. -/
def charOfCode (code : Nat) : Char :=
  if code.isValidChar then Char.ofNat code else '\ufffd'

def isHighSurrogate (code : Nat) : Bool := 0xd800 ≤ code && code ≤ 0xdbff

def isLowSurrogate (code : Nat) : Bool := 0xdc00 ≤ code && code ≤ 0xdfff

def joinSurrogates (high low : Nat) : Nat :=
  0x10000 + (high - 0xd800) * 0x400 + (low - 0xdc00)

def peekDigit? (radix : Nat) : Reader (Option Nat) :=
  return (← peek?).bind (Number.digitValue? radix)

def readDigitsUpTo (radix : Nat) : Nat → Nat → Reader Nat
  | 0, value => return value
  | count + 1, value => do
    match ← peekDigit? radix with
    | some digit =>
      skip
      readDigitsUpTo radix count (value * radix + digit)
    | none => return value

def readHexDigits (start : Position) : Nat → Nat → Reader Nat
  | 0, value => return value
  | count + 1, value => do
    match ← peekDigit? 16 with
    | some digit =>
      skip
      readHexDigits start count (value * 16 + digit)
    | none => fail .invalidUnicodeEscape start

def readBracedCode (start : Position) : Reader Nat := do
  skip
  let (count, code) ← loop (fun (count, code) => do
    match ← peekDigit? 16 with
    | some digit =>
      skip
      return .again (count + 1, code * 16 + digit)
    | none => return .done (count, code)) (0, 0)
  if count == 0 || (← peek?) != some '\x7d' || code > 0x10ffff then
    fail .invalidUnicodeEscape start
  skip
  return code

/-- Reads what follows the letter of a Unicode escape. The code point may be a
surrogate. -/
def readUnicodeCode (start : Position) : Reader Nat := do
  if (← peek?) == some '\x7b' then readBracedCode start else readHexDigits start 4 0

/-- Reads a Unicode escape; two escapes that form a pair of surrogates denote
one character. -/
def readUnicodeEscape (start : Position) : Reader Char := do
  let code ← readUnicodeCode start
  let cursor ← get
  if isHighSurrogate code && cursor.peek? == some '\\' && cursor.peekSecond? == some 'u' then
    match (readUnicodeCode start).run cursor.advance.advance with
    | .ok low after =>
      if isLowSurrogate low then
        set after
        return charOfCode (joinSurrogates code low)
    | .error _ _ => pure ()
  return charOfCode code

def readHexEscape (start : Position) : Reader Char := do
  let high := (← advance?).bind (Number.digitValue? 16)
  let low := (← advance?).bind (Number.digitValue? 16)
  match high, low with
  | some high, some low => return Char.ofNat (high * 16 + low)
  | _, _ => fail .invalidHexEscape start

structure Escape where
  /-- A line continuation stands for no character. -/
  character? : Option Char
  octal : Bool := false

def escapeLetter? (c : Char) : Option Char :=
  match c with
  | 'n' => some '\n'
  | 'r' => some '\r'
  | 't' => some '\t'
  | 'b' => some '\x08'
  | 'f' => some '\x0c'
  | 'v' => some '\x0b'
  | _ => none

/-- Reads an escape by number after its first digit. Only a zero that no digit
follows is allowed everywhere. -/
def readDigitEscape (start : Position) (inTemplate : Bool) (digit : Char) : Reader Escape := do
  if digit == '0' && !((← peek?).any Char.isDigit) then
    return { character? := some '\x00' }
  else if '0' ≤ digit && digit ≤ '7' then
    if inTemplate then fail .octalEscapeInTemplate start
    let value := digit.toNat - '0'.toNat
    let code ← readDigitsUpTo 8 (if value ≤ 3 then 2 else 1) value
    return { character? := some (charOfCode code), octal := true }
  else
    if inTemplate then fail .digitEscapeInTemplate start
    return { character? := some digit, octal := true }

def readEscape (start : Position) (inTemplate : Bool) : Reader Escape := do
  match ← advance? with
  | none => fail .invalidToken start
  | some c =>
    match escapeLetter? c with
    | some meaning => return { character? := some meaning }
    | none =>
      if Text.isLineTerminator c then return { character? := none }
      else if c == 'x' then return { character? := some (← readHexEscape start) }
      else if c == 'u' then return { character? := some (← readUnicodeEscape start) }
      else if c.isDigit then readDigitEscape start inTemplate c
      else return { character? := some c }

/-- Reads a string from its opening quote on. Returns the contents and whether
there is an octal escape among them. -/
def readString (start : Position) : Reader (String × Bool) := do
  match ← advance? with
  | none => fail .unterminatedString start
  | some quote =>
    let (reversed, octal) ← loop (fun (reversed, octal) => do
      match ← peek? with
      | none | some '\n' | some '\r' => fail .unterminatedString start
      | some c =>
        if c == quote then
          skip
          return .done (reversed, octal)
        else if c == '\\' then
          let escapeStart ← position
          skip
          let escape ← readEscape escapeStart false
          return .again (escape.character?.toList ++ reversed, octal || escape.octal)
        else
          skip
          return .again (c :: reversed, octal)) (([] : List Char), false)
    return (String.ofList reversed.reverse, octal)

/-- Writes every line end of two characters, and every lone carriage return,
as one line feed. -/
def normalizeLineEnds : List Char → List Char
  | [] => []
  | '\r' :: '\n' :: rest => '\n' :: normalizeLineEnds rest
  | '\r' :: rest => '\n' :: normalizeLineEnds rest
  | c :: rest => c :: normalizeLineEnds rest

structure TemplatePiece where
  cooked : String
  raw : String
  opensHole : Bool

/-- Reads template text up to the next hole or the end of the template,
delimiters included. -/
def readTemplatePiece (start : Position) : Reader TemplatePiece := do
  let body ← get
  let finish := fun (reversed : List Char) (stop : Cursor) (opensHole : Bool) =>
    ({ cooked := String.ofList reversed.reverse
       raw := String.ofList (normalizeLineEnds (body.textUntil stop).toList)
       opensHole } : TemplatePiece)
  loop (fun reversed => do
    match ← peek? with
    | none => fail .unterminatedTemplate start
    | some c =>
      if c == '\x60' then
        let stop ← get
        skip
        return .done (finish reversed stop false)
      else if c == '$' && (← peekSecond?) == some '\x7b' then
        let stop ← get
        skip
        skip
        return .done (finish reversed stop true)
      else if c == '\\' then
        let escapeStart ← position
        skip
        let escape ← readEscape escapeStart true
        return .again (escape.character?.toList ++ reversed)
      else
        skip
        return .again ((if c == '\r' then '\n' else c) :: reversed)) ([] : List Char)

end ExprScript.Reader
