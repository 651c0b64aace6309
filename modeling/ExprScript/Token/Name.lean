import ExprScript.Token.Basic
import ExprScript.Token.Quoted
import ExprScript.Text.Identifier

/-!
Names and keywords in a source text.
-/

namespace ExprScript.Reader

def fitsName (atStart : Bool) (c : Char) : Bool :=
  if atStart then Text.isNameStart c else Text.isNamePart c

def readNameEscape (atStart : Bool) : Reader Char := do
  let start ← position
  skip
  if (← advance?) != some 'u' then fail .invalidUnicodeEscape start
  let code ← readUnicodeCode start
  if code.isValidChar && fitsName atStart (Char.ofNat code) then
    return Char.ofNat code
  else
    fail .invalidUnicodeEscape start

def readNameText : Reader (String × Bool) := do
  let (reversed, escaped) ← loop (fun (reversed, escaped) => do
    match ← peek? with
    | some c =>
      if c == '\\' then
        let character ← readNameEscape reversed.isEmpty
        return .again (character :: reversed, true)
      else if fitsName reversed.isEmpty c then
        skip
        return .again (c :: reversed, escaped)
      else return .done (reversed, escaped)
    | none => return .done (reversed, escaped)) (([] : List Char), false)
  return (String.ofList reversed.reverse, escaped)

def readName (start : Position) : Reader (TokenKind × String) := do
  let (name, escaped) ← readNameText
  match Keyword.ofWord? name with
  | some word =>
    if escaped then fail .escapedKeyword start
    return (.keyword word, name)
  | none => return (.identifier, name)

end ExprScript.Reader
