import ExprScript.Text.Alphabetic
import ExprScript.Text.Numeric

/-!
The characters of names.
-/

namespace ExprScript.Text

def isNameStart (c : Char) : Bool :=
  c == '$' || c == '_' || isAlphabetic c

/-- A name goes on with letters, numbers, a dollar sign, an underscore and the
two joiners of zero width. -/
def isNamePart (c : Char) : Bool :=
  c == '$' || c == '_' || c == '\u200c' || c == '\u200d' || isAlphabetic c || isNumeric c

example : isNameStart '7' = false ∧ isNamePart '7' = true := by decide

end ExprScript.Text
