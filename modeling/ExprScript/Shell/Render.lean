import ExprScript.Value.Convert
import ExprScript.Text.Quote

/-!
Values as they are shown to the user: arrays and objects like literals, texts
between quotes.
-/

namespace ExprScript

def FunctionValue.render (function : FunctionValue) : String :=
  if function.name == "" then "[Function (anonymous)]"
  else "[Function: " ++ function.name ++ "]"

namespace Heap

/-- The shown form of a value inside of the containers `enclosing`. A container
inside of itself is cut off. Every level enters another container, so `depth`
need not exceed their number. -/
def renderWithin (heap : Heap) : Nat → List Container → Value → String
  | _, _, .string text => Text.quoteJson text
  | _, _, .function ref => (heap.function ref).render
  | 0, _, .array _ | 0, _, .object _ => "[Circular]"
  | depth + 1, enclosing, .array ref =>
    if enclosing.contains (.array ref) then "[Circular]"
    else
      let items := (heap.array ref).toList.map fun value =>
        renderWithin heap depth (.array ref :: enclosing) value
      "[" ++ ", ".intercalate items ++ "]"
  | depth + 1, enclosing, .object ref =>
    if enclosing.contains (.object ref) then "[Circular]"
    else
      match (heap.object ref).entries with
      | [] => "\x7b\x7d"
      | entries =>
        let fields := entries.map fun (key, value) =>
          Text.quoteJson key ++ ": " ++ renderWithin heap depth (.object ref :: enclosing) value
        "\x7b " ++ ", ".intercalate fields ++ " \x7d"
  | _, _, value => heap.toText value

def render (heap : Heap) (value : Value) : String :=
  heap.renderWithin (heap.containerCount + 1) [] value

end Heap

end ExprScript
