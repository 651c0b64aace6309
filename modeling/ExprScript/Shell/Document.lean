import ExprScript.Eval.World
import ExprScript.Number.Layout
import ExprScript.Text.Quote

/-!
JSON documents, with the members of every object sorted by name.
-/

namespace ExprScript

inductive Document where
  | null
  | boolean (value : Bool)
  /-- A number that is written without a fraction and without an exponent. -/
  | integer (value : Int)
  | fraction (value : Float)
  | string (value : String)
  | array (items : List Document)
  | object (members : List (String × Document))

namespace Document

def insertMember (name : String) (value : Document) :
    List (String × Document) → List (String × Document)
  | [] => [(name, value)]
  | (other, old) :: members =>
    if other < name then (other, old) :: insertMember name value members
    else if other = name then (name, value) :: members
    else (name, value) :: (other, old) :: members

mutual

def write : Document → String
  | .null => "null"
  | .boolean value => if value then "true" else "false"
  | .integer value => toString value
  | .fraction value => Number.compact.write value
  | .string value => Text.quoteJson value
  | .array items => "[" ++ ",".intercalate (writeItems items) ++ "]"
  | .object members => "\x7b" ++ ",".intercalate (writeMembers members) ++ "\x7d"

def writeItems : List Document → List String
  | [] => []
  | item :: items => item.write :: writeItems items

def writeMembers : List (String × Document) → List String
  | [] => []
  | (name, value) :: members => (Text.quoteJson name ++ ":" ++ value.write) :: writeMembers members

end

mutual

def toValue : Document → Eval Value
  | .null => return .null
  | .boolean value => return .boolean value
  | .integer value => return .number (Float.ofInt value)
  | .fraction value => return .number value
  | .string value => return .string value
  | .array items => do Eval.newArray (← itemValues items)
  | .object members => do Eval.newObject (.ofEntries (← memberValues members))

def itemValues : List Document → Eval (List Value)
  | [] => return []
  | item :: items => do
    let value ← item.toValue
    return value :: (← itemValues items)

def memberValues : List (String × Document) → Eval (List (String × Value))
  | [] => return []
  | (name, member) :: members => do
    let value ← member.toValue
    return (name, value) :: (← memberValues members)

end

end Document

end ExprScript
