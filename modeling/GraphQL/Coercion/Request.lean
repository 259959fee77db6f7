import GraphQL.Coercion.Literal
import GraphQL.Coercion.Value
import GraphQL.Document.Basic

/-!
Coercion of the variables that come with a request. Each variable is coerced on its own, and each
failing one gives an error.
-/

namespace GraphQL

def badUserInput : String := "BAD_USER_INPUT"

namespace VariableDefinition

def coerce (registry : Registry) (provided : List (String × Json))
    (definition : VariableDefinition) : Except String (Option VariableValue) :=
  let name := definition.name
  let type := TypeRef.ofExpr definition.type
  if !registry.isInput type then
    .error s!"Variable \"${name}\" expected value of type \"{type.text}\" which cannot be used as an input type."
  else
    match Named.value? provided name with
    | some value =>
        if value.isNull && type.isNonNull then
          .error s!"Variable \"${name}\" of non-null type \"{type.text}\" must not be null."
        else
          match registry.coerceValue value type with
          | .ok coerced => .ok (some ⟨coerced, .explicit, type⟩)
          | .error error =>
              .error s!"Variable \"${name}\" got invalid value {value.text}; {error.text}"
    | none =>
        match definition.default with
        | some literal =>
            match registry.coerceLiteral none literal type with
            | .ok coerced => .ok (some ⟨coerced, .variableDefault, type⟩)
            | .error error =>
                .error s!"Variable \"${name}\" has an invalid default value; {error.text}"
        | none =>
            if type.isNonNull then
              .error s!"Variable \"${name}\" of required type \"{type.text}\" was not provided."
            else .ok none

def error (definition : VariableDefinition) (message : String) : ResponseError :=
  { message := message
    kind := .coercion
    code := some badUserInput
    locations := some [definition.position] }

end VariableDefinition

def Variables.addOutcome (registry : Registry) (provided : List (String × Json))
    (state : Variables × List ResponseError) (definition : VariableDefinition) :
    Variables × List ResponseError :=
  match definition.coerce registry provided with
  | .ok (some value) => (Named.put state.1 (definition.name, value), state.2)
  | .ok none => state
  | .error message => (state.1, state.2 ++ [definition.error message])

def Operation.coerceVariables (registry : Registry) (operation : Operation)
    (provided : List (String × Json)) : Except (List ResponseError) Variables :=
  let (values, errors) :=
    operation.variableDefinitions.foldl (Variables.addOutcome registry provided) ([], [])
  if errors.isEmpty then .ok values else .error errors

end GraphQL
