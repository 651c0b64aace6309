/-!
Properties of characters that are given by a table of ranges of code points.
-/

namespace ExprScript.Text

abbrev CodeRanges := List (Nat × Nat)

def CodeRanges.contains (ranges : CodeRanges) (code : Nat) : Bool :=
  ranges.any fun range => range.1 ≤ code && code ≤ range.2

example : CodeRanges.contains [(1, 3), (7, 7)] 7 = true := rfl
example : CodeRanges.contains [(1, 3), (7, 7)] 4 = false := rfl

end ExprScript.Text
