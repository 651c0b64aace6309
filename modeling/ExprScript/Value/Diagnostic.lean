import ExprScript.Value.Heap
import ExprScript.Number.Layout
import ExprScript.Text.Quote

/-!
The diagnostic form of a value, which shows its type and its parts.
-/

namespace ExprScript

def showFields (name : String) (fields : List (String × String)) : String :=
  let parts := fields.map fun (key, text) => key ++ ": " ++ text
  name ++ " \x7b " ++ ", ".intercalate parts ++ " \x7d"

def showList (items : List String) : String := "[" ++ ", ".intercalate items ++ "]"

def showBoolean (value : Bool) : String := if value then "true" else "false"

def FunctionValue.diagnose (function : FunctionValue) : String :=
  let kind := match function.body with
    | .native _ => "Native(<fn>)"
    | .arrow closure => "Arrow(" ++ toString closure.params.length ++ " params)"
  showFields "JsFunction"
    [("name", Text.quoteDiagnostic function.name), ("kind", kind),
     ("constructible", showBoolean function.constructible)]

def RegExpValue.diagnose (regExp : RegExpValue) : String :=
  showFields "RegExpValue"
    [("source", Text.quoteDiagnostic regExp.pattern),
     ("flags", Text.quoteDiagnostic regExp.flags)]

namespace Heap

/-- The diagnostic form inside of the containers `enclosing`. A container
inside of itself is only named. -/
def diagnoseWithin (heap : Heap) : Nat → List Container → Value → String
  | _, _, .undefined => "Undefined"
  | _, _, .null => "Null"
  | _, _, .boolean value => "Bool(" ++ showBoolean value ++ ")"
  | _, _, .number value => "Number(" ++ Number.diagnostic.write value ++ ")"
  | _, _, .string value => "String(" ++ Text.quoteDiagnostic value ++ ")"
  | _, _, .function ref => "Function(" ++ (heap.function ref).diagnose ++ ")"
  | _, _, .regExp ref => "RegExp(" ++ (heap.regExp ref).diagnose ++ ")"
  | 0, _, .array _ => "Array(<circular>)"
  | 0, _, .object _ => "Object(<circular>)"
  | depth + 1, enclosing, .array ref =>
    if enclosing.contains (.array ref) then "Array(<circular>)"
    else
      "Array(" ++ showList ((heap.array ref).toList.map fun value =>
        diagnoseWithin heap depth (.array ref :: enclosing) value) ++ ")"
  | depth + 1, enclosing, .object ref =>
    if enclosing.contains (.object ref) then "Object(<circular>)"
    else
      let record := heap.object ref
      let properties := record.entries.map fun (key, value) =>
        "(" ++ Text.quoteDiagnostic key ++ ", " ++
          diagnoseWithin heap depth (.object ref :: enclosing) value ++ ")"
      let creator := match record.constructor? with
        | some function => "Some(" ++ (heap.function function).diagnose ++ ")"
        | none => "None"
      "Object(" ++ showFields "JsObject"
        [("properties", showList properties), ("constructor", creator)] ++ ")"

def diagnose (heap : Heap) (value : Value) : String :=
  heap.diagnoseWithin (heap.containerCount + 1) [] value

end Heap

end ExprScript
