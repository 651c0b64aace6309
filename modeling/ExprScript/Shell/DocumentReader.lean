import ExprScript.Loop
import ExprScript.Number.Reading
import ExprScript.Shell.Document

/-!
Reading JSON text. The grammar is the strict one: no comments, no commas after
the last item, and only double quotes.
-/

namespace ExprScript

abbrev DocumentReader := StateT (List Char) Option

namespace DocumentReader

def refuse {α : Type} : DocumentReader α := fun _ => none

def peek? : DocumentReader (Option Char) := fun text => some (text.head?, text)

def take : DocumentReader Char := fun text =>
  match text with
  | [] => none
  | c :: rest => some (c, rest)

def skip : DocumentReader Unit := modify List.tail

def takeWhile (belongs : Char → Bool) : DocumentReader (List Char) := fun text =>
  some (text.takeWhile belongs, text.dropWhile belongs)

def accept (c : Char) : DocumentReader Bool := do
  if (← peek?) == some c then
    skip
    return true
  else return false

def expect (c : Char) : DocumentReader Unit := do
  unless ← accept c do refuse

def expectAll (text : String) : DocumentReader Unit := text.toList.forM expect

def isJsonBlank (c : Char) : Bool := c == ' ' || c == '\n' || c == '\t' || c == '\r'

def skipBlanks : DocumentReader Unit := modify (List.dropWhile isJsonBlank)

/-- Repeats a round until it is done. Every round has to take a character, so
the length of the text bounds their number. -/
def loop {α β : Type} (round : α → DocumentReader (Round α β)) (start : α) :
    DocumentReader β := fun text =>
  (repeatWithin refuse round (text.length + 1) start).run text

/-! Numbers. A significand of at most 64 bits is scaled by a power of ten, and
digits that would not fit any more only count for the power. -/

def maxSignificand : Nat := 0xffffffffffffffff

/-- Adds digits to a significand while it fits. Returns the digits that did not
fit as well. -/
def addDigits (significand : Nat) : List Char → Nat × List Char
  | [] => (significand, [])
  | c :: digits =>
    let next := significand * 10 + (Number.digitValue? 10 c).getD 0
    if maxSignificand < next then (significand, c :: digits) else addDigits next digits

def maxPower : Nat := 308

def powerOfTen (exponent : Nat) : Float := Float.ofScientific 1 false exponent

/-- Divides by a power of ten, in steps if it is a large one. A number that has
become zero stays so, and `budget` steps are enough for that. -/
def scaleDown (number : Float) (exponent : Nat) : Nat → Float
  | 0 => number
  | budget + 1 =>
    if exponent ≤ maxPower then number / powerOfTen exponent
    else if number == 0.0 then number
    else scaleDown (number / powerOfTen maxPower) (exponent - maxPower) budget

/-- The number of a significand and a power of ten. One that is too large is
refused. -/
def scaled? (significand : Nat) (exponent : Int) : Option Float :=
  let number := Float.ofNat significand
  if exponent < 0 then some (scaleDown number exponent.natAbs 4)
  else if exponent ≤ maxPower then
    let product := number * powerOfTen exponent.natAbs
    if product.isInf then none else some product
  else if significand = 0 then some number
  else none

def maxExponent : Nat := 0x7fffffff

def clampExponent (exponent : Int) : Int :=
  max (-(Int.ofNat maxExponent) - 1) (min (Int.ofNat maxExponent) exponent)

def takeDigits : DocumentReader (List Char) := takeWhile Char.isDigit

def takeSomeDigits : DocumentReader (List Char) := do
  let digits ← takeDigits
  if digits.isEmpty then refuse else return digits

def readExponent : DocumentReader Int := do
  let negative ← accept '-'
  unless negative do discard (accept '+')
  let value := Int.ofNat (Number.digitsToNat 10 (← takeSomeDigits))
  return if negative then -value else value

/-- Applies an exponent to a significand with a power of its own. An exponent
that is beyond all bounds leaves only zero. -/
def applyExponent? (significand : Nat) (power exponent : Int) : Option Float :=
  if maxExponent < exponent.natAbs then
    if significand != 0 && 0 < exponent then none else some 0.0
  else scaled? significand (clampExponent (power + exponent))

def readScaled (significand : Nat) (power : Int) : DocumentReader Float := do
  match ← peek? with
  | some 'e' | some 'E' =>
    skip
    StateT.lift (applyExponent? significand power (← readExponent))
  | _ => StateT.lift (scaled? significand power)

/-- A number without its sign. Numbers with nothing but digits are integers as
long as they fit. -/
def readMagnitude : DocumentReader (Nat ⊕ Float) := do
  let whole ← takeSomeDigits
  if whole.head? == some '0' && 1 < whole.length then refuse
  let (significand, dropped) := addDigits 0 whole
  let power := Int.ofNat dropped.length
  match ← peek? with
  | some '.' =>
    skip
    let fraction ← takeSomeDigits
    let (significand, rest) := addDigits significand fraction
    .inr <$> readScaled significand (power - (fraction.length - rest.length : Nat))
  | some 'e' | some 'E' => .inr <$> readScaled significand power
  | _ =>
    if dropped.isEmpty then return .inl significand
    else .inr <$> readScaled significand power

/-- A number with its sign. Integers that do not fit in 64 bits, and the zero
with a sign, are kept as fractions. -/
def readNumber : DocumentReader Document := do
  let negative ← accept '-'
  match ← readMagnitude with
  | .inr value => return .fraction (if negative then -value else value)
  | .inl value =>
    if !negative then return .integer value
    else if value = 0 || 1 <<< 63 < value then return .fraction (-(Float.ofNat value))
    else return .integer (-(Int.ofNat value))

/-! Strings. -/

def readCode : DocumentReader Nat := do
  let digits := [← take, ← take, ← take, ← take]
  if digits.all (Number.isDigitOf 16) then return Number.digitsToNat 16 digits else refuse

/-- The character of an escape by code; two halves in a row are one character,
and a half alone is none. -/
def readCodeEscape : DocumentReader Char := do
  let first ← readCode
  if 0xdc00 ≤ first && first < 0xe000 then refuse
  else if 0xd800 ≤ first && first < 0xdc00 then
    expectAll "\\u"
    let second ← readCode
    if 0xdc00 ≤ second && second < 0xe000 then
      return Char.ofNat (0x10000 + (first - 0xd800) * 0x400 + (second - 0xdc00))
    else refuse
  else return Char.ofNat first

def readEscape : DocumentReader Char := do
  match ← take with
  | '\x22' => return '\x22'
  | '\\' => return '\\'
  | '/' => return '/'
  | 'b' => return '\x08'
  | 'f' => return '\x0c'
  | 'n' => return '\n'
  | 'r' => return '\r'
  | 't' => return '\t'
  | 'u' => readCodeEscape
  | _ => refuse

def readStringRest : DocumentReader String :=
  loop (fun (taken : List Char) => do
    match ← take with
    | '\x22' => return .done (String.ofList taken.reverse)
    | '\\' => return .again ((← readEscape) :: taken)
    | c => if c.toNat < 0x20 then refuse else return .again (c :: taken)) []

/-! Documents. -/

def readArrayRest (readItem : DocumentReader Document) : DocumentReader Document := do
  skipBlanks
  if ← accept ']' then return .array []
  else
    loop (fun (items : List Document) => do
      let item ← readItem
      skipBlanks
      match ← take with
      | ',' => return .again (item :: items)
      | ']' => return .done (.array (item :: items).reverse)
      | _ => refuse) []

def readMember (readItem : DocumentReader Document) : DocumentReader (String × Document) := do
  skipBlanks
  expect '\x22'
  let name ← readStringRest
  skipBlanks
  expect ':'
  return (name, ← readItem)

def readObjectRest (readItem : DocumentReader Document) : DocumentReader Document := do
  skipBlanks
  if ← accept '\x7d' then return .object []
  else
    loop (fun (members : List (String × Document)) => do
      let (name, value) ← readMember readItem
      let members := Document.insertMember name value members
      skipBlanks
      match ← take with
      | ',' => return .again members
      | '\x7d' => return .done (.object members)
      | _ => refuse) []

/-- A document after blanks. At most `depth` arrays and objects may be inside
of each other. -/
def readDocument (depth : Nat) : DocumentReader Document := do
  skipBlanks
  match ← peek? with
  | some 'n' => skip; expectAll "ull"; return .null
  | some 't' => skip; expectAll "rue"; return .boolean true
  | some 'f' => skip; expectAll "alse"; return .boolean false
  | some '\x22' => skip; return .string (← readStringRest)
  | some '[' =>
    match depth with
    | 0 => refuse
    | depth + 1 => skip; readArrayRest (readDocument depth)
  | some '\x7b' =>
    match depth with
    | 0 => refuse
    | depth + 1 => skip; readObjectRest (readDocument depth)
  | _ => readNumber

end DocumentReader

namespace Document

def maxDepth : Nat := 127

def read? (text : String) : Option Document :=
  match (DocumentReader.readDocument maxDepth).run text.toList with
  | some (document, rest) =>
    if rest.all DocumentReader.isJsonBlank then some document else none
  | none => none

example : (read? " [1, -0, 2.50] ").map write = some "[1,-0.0,2.5]" := by decide +kernel
example : (read? "[1,]").map write = none := by decide +kernel

end Document

end ExprScript
