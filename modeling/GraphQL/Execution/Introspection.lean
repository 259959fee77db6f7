import GraphQL.Execution.Collect
import GraphQL.Schema.Description

/-!
Answering the fields `__schema` and `__type`: the description of the registry, as far as it was
selected.
-/

namespace GraphQL

namespace Request

def metaArgument? (request : Request) (fields : List Field) (name : String) : Option Json :=
  fields.head?.bind fun field =>
    (Named.value? field.arguments name).bind fun literal =>
      (literal.valueWith (some request.variableValues)).toOption

def includesDeprecated (request : Request) (fields : List Field) : Bool :=
  match request.metaArgument? fields "includeDeprecated" with
  | some (.bool flag) => flag
  | _ => false

/-- What is selected of a meta object by fields of one response name. Each step down goes to
selections nested one deeper. -/
def describe (request : Request) : (depth : Nat) → MetaObject → List Field → Json
  | 0, _, _ => .null
  | depth + 1, object, fields =>
      let groups := request.collectFields object.typeName (fields.map Field.selections)
      .object (groups.map fun (responseName, fields) =>
        let name := ((fields.head?).map Field.name).getD ""
        (responseName,
          if name = "__typename" then .string object.typeName
          else
            match object.property request.registry (request.includesDeprecated fields) name with
            | .leaf value => value
            | .object none => .null
            | .object (some inner) => request.describe depth inner fields
            | .list objects =>
                .array (objects.map fun
                  | none => .null
                  | some inner => request.describe depth inner fields)))

def introspect (request : Request) (name : String) (fields : List Field) : Json :=
  let object? :=
    if name = "__schema" then some .schema
    else if name = "__type" then
      ((request.metaArgument? fields "name").bind Json.asString?).bind
        (MetaObject.named? request.registry)
    else none
  object?.elim .null fun object => request.describe request.depth object fields

end Request

end GraphQL
