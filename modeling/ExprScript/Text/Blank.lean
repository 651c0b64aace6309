/-!
The classes of characters that separate tokens, and the wider class that is
removed from both ends of a text before it is read as a number.
-/

namespace ExprScript.Text

def isLineTerminator (c : Char) : Bool :=
  c == '\n' || c == '\r' || c == '\u2028' || c == '\u2029'

def isBlank (c : Char) : Bool :=
  c == '\t' || c == '\x0b' || c == '\x0c' || c == ' ' || c == '\u00a0' ||
  c == '\ufeff' || c == '\u1680' || ('\u2000' ≤ c && c ≤ '\u200a') ||
  c == '\u202f' || c == '\u205f' || c == '\u3000' || isLineTerminator c

/-- The White_Space property of Unicode. It has the next-line control U+0085,
which does not separate tokens, and lacks the byte order mark, which does. -/
def isWhiteSpace (c : Char) : Bool :=
  ('\t' ≤ c && c ≤ '\r') || c == ' ' || c == '\u0085' || c == '\u00a0' ||
  c == '\u1680' || ('\u2000' ≤ c && c ≤ '\u200a') || c == '\u2028' ||
  c == '\u2029' || c == '\u202f' || c == '\u205f' || c == '\u3000'

def trimBoth (drop : Char → Bool) (text : String) : String :=
  let front := text.toList.dropWhile drop
  String.ofList (front.reverse.dropWhile drop).reverse

example : isBlank '\ufeff' = true ∧ isWhiteSpace '\ufeff' = false := by decide
example : isBlank '\u0085' = false ∧ isWhiteSpace '\u0085' = true := by decide

end ExprScript.Text
