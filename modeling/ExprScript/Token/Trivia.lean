import ExprScript.Source.Cursor

/-!
The text between tokens: blanks, comments to the end of the line, and block
comments.
-/

namespace ExprScript.Reader

def skipLineComment : Reader Unit := skipWhile fun c => !Text.isLineTerminator c

def skipBlockComment : Reader Bool := do
  let start ← position
  skip
  skip
  loop (fun newline => do
    match ← peek? with
    | none => fail .unterminatedComment start
    | some c =>
      if c == '*' && (← peekSecond?) == some '/' then
        skip
        skip
        return .done newline
      else
        skip
        return .again (newline || Text.isLineTerminator c)) false

/-- Skips blanks and comments up to the next token; tells whether there is a
line end among them. -/
def skipTrivia : Reader Bool :=
  loop (fun newline => do
    match ← peek? with
    | none => return .done newline
    | some c =>
      if Text.isBlank c then
        skip
        return .again (newline || Text.isLineTerminator c)
      else if c == '/' && (← peekSecond?) == some '/' then
        skipLineComment
        return .again newline
      else if c == '/' && (← peekSecond?) == some '*' then
        let inside ← skipBlockComment
        return .again (newline || inside)
      else
        return .done newline) false

end ExprScript.Reader
