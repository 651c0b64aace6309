import ExprScript.Error
import ExprScript.Loop
import ExprScript.Text.Blank

/-!
Reading a source text character by character. A cursor holds the characters
that are still unread and the place of the first of them; `Reader` is the
monad of all functions that read lexemes. A reader that fails leaves the
cursor where it stopped.
-/

namespace ExprScript

structure Cursor where
  /-- The characters that have not been read yet. -/
  rest : List Char
  /-- The place of the first unread character. -/
  position : Position := .first
  /-- The offset of the first character of the current line. -/
  lineStart : Nat := 0

namespace Cursor

def ofString (source : String) : Cursor := { rest := source.toList }

def peek? (cursor : Cursor) : Option Char := cursor.rest.head?

def peekSecond? (cursor : Cursor) : Option Char := cursor.rest[1]?

def stepColumn (cursor : Cursor) (size : Nat) (rest : List Char) : Cursor :=
  { cursor with
    rest
    position :=
      { offset := cursor.position.offset + size
        line := cursor.position.line
        column := cursor.position.column + 1 } }

def stepLine (cursor : Cursor) (size : Nat) (rest : List Char) : Cursor :=
  let offset := cursor.position.offset + size
  { rest
    position := { offset, line := cursor.position.line + 1, column := 1 }
    lineStart := offset }

/-- Moves over the next character. A carriage return takes the line feed that
follows it along, and the two end one line. -/
def advance (cursor : Cursor) : Cursor :=
  match cursor.rest with
  | [] => cursor
  | '\r' :: '\n' :: rest => cursor.stepLine 2 rest
  | c :: rest =>
    if Text.isLineTerminator c then cursor.stepLine c.utf8Size rest
    else cursor.stepColumn c.utf8Size rest

end Cursor

def takeBytes : Nat → List Char → List Char
  | _, [] => []
  | size, c :: rest =>
    if c.utf8Size ≤ size then c :: takeBytes (size - c.utf8Size) rest else []

def dropBytes : Nat → List Char → List Char
  | _, [] => []
  | size, c :: rest => if c.utf8Size ≤ size then dropBytes (size - c.utf8Size) rest else c :: rest

def Cursor.textUntil (start stop : Cursor) : String :=
  String.ofList (takeBytes (stop.position.offset - start.position.offset) start.rest)

abbrev Reader := EStateM Error Cursor

namespace Reader

def fail {α : Type} (cause : Cause) (position : Position) : Reader α :=
  throw { cause, position }

def position : Reader Position := return (← get).position

def peek? : Reader (Option Char) := return (← get).peek?

def peekSecond? : Reader (Option Char) := return (← get).peekSecond?

def advance? : Reader (Option Char) := do
  let cursor ← get
  set cursor.advance
  return cursor.peek?

def skip : Reader Unit := modify Cursor.advance

/-- Repeats `round` until it is done. Every round that goes on has to read a
character, so that the length of the unread text bounds the number of rounds. -/
def loop {α β : Type} (round : α → Reader (Round α β)) (state : α) : Reader β := do
  let stalled := do fail .stalledScanner (← position)
  repeatWithin stalled round ((← get).rest.length + 1) state

def skipWhile (drop : Char → Bool) : Reader Unit :=
  loop (fun _ => do
    match ← peek? with
    | some c => if drop c then skip; return .again () else return .done ()
    | none => return .done ()) ()

def capture {α : Type} (reader : Reader α) : Reader (α × String) := do
  let start ← get
  let result ← reader
  return (result, start.textUntil (← get))

end Reader

end ExprScript
