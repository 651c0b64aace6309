import ExprScript.Text.GraphemeExtend
import ExprScript.Text.Printable

/-!
Texts between double quotes. The three written forms differ only in the
characters that they escape and in the escapes they use.
-/

namespace ExprScript.Text

def defaultIgnorableRanges : CodeRanges :=
  [(0xad, 0xad), (0x34f, 0x34f), (0x61c, 0x61c), (0x115f, 0x1160), (0x17b4, 0x17b5),
   (0x180b, 0x180f), (0x200b, 0x200f), (0x202a, 0x202e), (0x2060, 0x206f), (0x3164, 0x3164),
   (0xfe00, 0xfe0f), (0xfeff, 0xfeff), (0xffa0, 0xffa0), (0xfff0, 0xfff8), (0x1bca0, 0x1bca3),
   (0x1d173, 0x1d17a), (0xe0000, 0xe0fff)]

def isDefaultIgnorable (c : Char) : Bool :=
  defaultIgnorableRanges.contains c.toNat

example : isDefaultIgnorable '\u3164' = true ∧ isDefaultIgnorable 'x' = false := by decide

abbrev Escaping := Char → Option Char → List Char

def escapeAll (escaping : Escaping) : List Char → List Char
  | [] => []
  | c :: rest => escaping c rest.head? ++ escapeAll escaping rest

def quoteWith (escaping : Escaping) (text : String) : String :=
  String.ofList ('\x22' :: escapeAll escaping text.toList ++ ['\x22'])

def hexDigits (digit : Nat → Char) (count number : Nat) : List Char :=
  (List.range count).reverse.map fun place => digit ((number >>> (4 * place)) % 16)

def lowerHexDigit (value : Nat) : Char := Nat.digitChar value

def upperHexDigit (value : Nat) : Char := (Nat.digitChar value).toUpper

/-- String literals of the language: escapes for quotes, backslashes and
controls. A zero before a digit takes the long form, because the short one
would read as an octal escape. -/
def literalEscaping : Escaping := fun c next =>
  match c with
  | '\x22' => ['\\', '\x22']
  | '\\' => ['\\', '\\']
  | '\n' => ['\\', 'n']
  | '\r' => ['\\', 'r']
  | '\t' => ['\\', 't']
  | '\x08' => ['\\', 'b']
  | '\x0c' => ['\\', 'f']
  | '\x0b' => ['\\', 'v']
  | _ =>
    if c == '\x00' && !next.any Char.isDigit then ['\\', '0']
    else if c.toNat < 0x20 then '\\' :: 'x' :: hexDigits upperHexDigit 2 c.toNat
    else [c]

def quoteLiteral (text : String) : String := quoteWith literalEscaping text

def jsonEscaping : Escaping := fun c _ =>
  match c with
  | '\x22' => ['\\', '\x22']
  | '\\' => ['\\', '\\']
  | '\n' => ['\\', 'n']
  | '\r' => ['\\', 'r']
  | '\t' => ['\\', 't']
  | '\x08' => ['\\', 'b']
  | '\x0c' => ['\\', 'f']
  | _ => if c.toNat < 0x20 then '\\' :: 'u' :: hexDigits lowerHexDigit 4 c.toNat else [c]

def quoteJson (text : String) : String := quoteWith jsonEscaping text

/-- The halfwidth voicing marks of katakana. They extend a grapheme, and yet
they are letters with a form and a width of their own. -/
def isHalfwidthVoicingMark (c : Char) : Bool := c == '\uff9e' || c == '\uff9f'

def isVisibleAlone (c : Char) : Bool :=
  isPrintable c && !isDefaultIgnorable c && (!isGraphemeExtend c || isHalfwidthVoicingMark c)

/-- Strings in the diagnostic form of a value: whatever cannot be seen on its
own is written by its code point. -/
def diagnosticEscaping : Escaping := fun c _ =>
  match c with
  | '\x22' => ['\\', '\x22']
  | '\\' => ['\\', '\\']
  | '\n' => ['\\', 'n']
  | '\r' => ['\\', 'r']
  | '\t' => ['\\', 't']
  | '\x00' => ['\\', '0']
  | _ =>
    if isVisibleAlone c then [c]
    else '\\' :: 'u' :: '\x7b' :: Nat.toDigits 16 c.toNat ++ ['\x7d']

def quoteDiagnostic (text : String) : String := quoteWith diagnosticEscaping text

example : quoteLiteral "a\x01\x00" = "\"a\\x01\\0\"" := by decide +kernel
example : quoteJson "\x1f" = "\"\\u001f\"" := by decide +kernel
example : quoteDiagnostic "\u1160\uff9e" = "\"\\u\x7b1160\x7d\uff9e\"" := by decide +kernel

end ExprScript.Text
