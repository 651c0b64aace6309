/-!
Texts as sequences of units of sixteen bits. Lengths, indices and the order of
texts count such units: a character beyond the first 65536 has two of them.
-/

namespace ExprScript.Text

def unitsOfChar (c : Char) : List Nat :=
  let code := c.toNat
  if code < 0x10000 then [code]
  else [0xd800 + (code - 0x10000) / 0x400, 0xdc00 + (code - 0x10000) % 0x400]

def units (text : String) : List Nat := text.toList.flatMap unitsOfChar

/-- One unit as a text. Half of a character is no character and becomes the
replacement character. -/
def ofUnit (code : Nat) : String :=
  String.singleton (if code.isValidChar then Char.ofNat code else '\ufffd')

def compareUnits : List Nat → List Nat → Ordering
  | [], [] => .eq
  | [], _ :: _ => .lt
  | _ :: _, [] => .gt
  | first :: firsts, second :: seconds =>
    (compare first second).then (compareUnits firsts seconds)

example : (units "a😀").length = 3 := by decide +kernel
example : compareUnits (units "😀") (units "\uffff") = .lt := by decide +kernel

end ExprScript.Text
