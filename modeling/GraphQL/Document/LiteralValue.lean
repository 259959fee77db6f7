import GraphQL.Document.Printer
import GraphQL.Json.Basic

/-!
Reading a literal as JSON without any type: enum values become strings, and variables are looked
up, an unknown one being null.
-/

namespace GraphQL

namespace Literal

mutual

/-- The JSON value that a literal stands for. Only a float beyond all doubles has none. -/
def toJson (valueOf : String → Option Json) : Literal → Except String Json
  | .null => .ok .null
  | .boolean value => .ok (.bool value)
  | .string value => .ok (.string value)
  | .enum name => .ok (.string name)
  | .int value => .ok (.int value)
  | .float value =>
      match Json.ofFloat? value with
      | some json => .ok json
      | none =>
          .error s!"Float literal {FloatLayout.literal.write (Double.ofFloat value)} is not a finite number"
  | .list items => do
      let values ← itemsToJson valueOf items
      return .array values
  | .object fields => do
      let values ← fieldsToJson valueOf fields
      return .object values
  | .variable name => .ok ((valueOf name).getD .null)

def itemsToJson (valueOf : String → Option Json) : List Literal → Except String (List Json)
  | [] => .ok []
  | item :: items => do
      let value ← toJson valueOf item
      let values ← itemsToJson valueOf items
      return value :: values

def fieldsToJson (valueOf : String → Option Json) :
    List (String × Literal) → Except String (List (String × Json))
  | [] => .ok []
  | (name, field) :: fields => do
      let value ← toJson valueOf field
      let values ← fieldsToJson valueOf fields
      return (name, value) :: values

end

end Literal

end GraphQL
