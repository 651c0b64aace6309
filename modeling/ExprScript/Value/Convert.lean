import ExprScript.Number.Reading
import ExprScript.Tree.Printer
import ExprScript.Value.Heap

/-!
Conversions of values to texts, numbers and property keys.
-/

namespace ExprScript

def FunctionValue.sourceText (function : FunctionValue) : String :=
  match function.body with
  | .native _ => "function " ++ function.name ++ "() \x7b [native code] \x7d"
  | .arrow closure =>
    "(" ++ ", ".intercalate (closure.params.map Pattern.print) ++ ") => " ++ closure.body.print

def RegExpValue.text (regExp : RegExpValue) : String :=
  "/" ++ regExp.pattern ++ "/" ++ regExp.flags

namespace Heap

/-- The text of a value inside of the arrays `enclosing`. An array joins its
elements with commas, values that stand for nothing being left empty; an array
inside of itself is empty as well. Every level enters another array, so
`depth` need not exceed their number. -/
def textWithin (heap : Heap) : Nat → List ArrayRef → Value → String
  | _, _, .undefined => "undefined"
  | _, _, .null => "null"
  | _, _, .boolean value => if value then "true" else "false"
  | _, _, .number value => Number.toText value
  | _, _, .string value => value
  | _, _, .object _ => "[object Object]"
  | _, _, .function ref => (heap.function ref).sourceText
  | _, _, .regExp ref => (heap.regExp ref).text
  | 0, _, .array _ => ""
  | depth + 1, enclosing, .array ref =>
    if enclosing.contains ref then ""
    else
      ",".intercalate ((heap.array ref).toList.map fun value =>
        if value.isNullish then "" else textWithin heap depth (ref :: enclosing) value)

def toText (heap : Heap) (value : Value) : String :=
  heap.textWithin (heap.arrays.size + 1) [] value

def toNumber (heap : Heap) : Value → Float
  | .undefined => Number.nan
  | .null => 0.0
  | .boolean value => if value then 1.0 else 0.0
  | .number value => value
  | .string value => Number.ofText value
  | value => Number.ofText (heap.toText value)

def toPrimitive (heap : Heap) (value : Value) : Value :=
  if value.isObjectLike then .string (heap.toText value) else value

def toPropertyKey (heap : Heap) (value : Value) : String := heap.toText value

end Heap

end ExprScript
