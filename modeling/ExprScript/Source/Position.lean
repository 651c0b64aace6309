/-!
Positions and spans in a source text. An offset counts bytes of the UTF-8
encoding, a line counts from one, and a column counts characters from one.
Lines and columns are counted in 32 bits.
-/

namespace ExprScript

/-- A place in a source text. The default position, all zeros, marks a place
that is not known: the first character of a text is on line one. -/
structure Position where
  offset : Nat := 0
  line : UInt32 := 0
  column : UInt32 := 0
deriving DecidableEq, Repr, Inhabited

namespace Position

def first : Position := { offset := 0, line := 1, column := 1 }

def isUnknown (position : Position) : Bool := position == {}

example : isUnknown first = false := rfl

end Position

/-- The part of a text from `start` up to, and without, `stop`. -/
structure Span where
  start : Position := {}
  stop : Position := {}
deriving DecidableEq, Repr, Inhabited

namespace Span

def join (earlier later : Span) : Span :=
  { start := earlier.start, stop := later.stop }

end Span

end ExprScript
