import GraphQL.Json.Basic
import GraphQL.Yaml.Node

/-!
Documents of YAML as JSON values. Keys have to be scalars; infinite and undefined numbers have no
value.
-/

namespace GraphQL

namespace Yaml

namespace Value

private def key? : Value → Option String
  | .string text => some text
  | .int value => some (toString value)
  | .bool value => some (toString value)
  | .real text => some text
  | _ => none

mutual

private def toJson? : Value → Option Json
  | .null => some .null
  | .bad => some .null
  | .bool value => some (.bool value)
  | .int value => some (.int value)
  | .real text => (Scalar.double? text.toList).map fun value => .number (.float value)
  | .string text => some (.string text)
  | .sequence items => (itemsToJson? items).map .array
  | .mapping entries => (entriesToJson? entries).map fun fields => .object (Named.ofList fields)

private def itemsToJson? : List Value → Option (List Json)
  | [] => some []
  | item :: items => do
      let item ← toJson? item
      let items ← itemsToJson? items
      return item :: items

private def entriesToJson? : List (Value × Value) → Option (List (String × Json))
  | [] => some []
  | (key, value) :: entries => do
      let key ← key? key
      let value ← toJson? value
      let fields ← entriesToJson? entries
      return (key, value) :: fields

end

end Value

def ofText? (text : String) : Option (List Json) := do
  let values ← values? text.toList
  Value.itemsToJson? values

end Yaml

end GraphQL
