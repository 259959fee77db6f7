import GraphQL.Coercion.Literal
import GraphQL.Validation.Rule

/-!
Rules about fields: they exist, leaves have no selections and others have some, required arguments
are there, and written values have the expected types.
-/

namespace GraphQL

namespace Rules

def fieldsOnCorrectType : Rule :=
  .stateless "FIELDS_ON_CORRECT_TYPE" [.field] fun _ visit =>
    match visit.visit, visit.scope.parent, visit.scope.field with
    | .enterField field, some parent, none =>
        [⟨s!"Cannot query field \"{field.name}\" on type \"{parent.name}\".", [field.position]⟩]
    | _, _, _ => []

def leafFieldSelections : Rule :=
  .stateless "LEAF_FIELD_SELECTIONS" [.field] fun subject visit =>
    match visit.visit, visit.scope.type, visit.scope.namedType? subject.registry with
    | .enterField field, some type, some named =>
        if named.isLeaf && !field.selections.isEmpty then
          [⟨s!"Field \"{field.name}\" must not have a selection since type \"{type.text}\" has no subfields.",
            [field.position]⟩]
        else if !named.isLeaf && field.selections.isEmpty then
          [⟨s!"Field \"{field.name}\" of type \"{type.text}\" must have a selection of subfields. Did you mean \"{field.name} \x7b ... \x7d\"?",
            [field.position]⟩]
        else []
    | _, _, _ => []

def missingArguments (definitions : List InputValueDefinition) (written : ArgumentList) :
    List InputValueDefinition :=
  definitions.filter fun definition =>
    definition.isRequired && !(Named.names written).contains definition.name

def missingArgument (subject : String) (position : Position) (definition : InputValueDefinition) :
    Finding :=
  ⟨s!"{subject} argument \"{definition.name}\" of type \"{definition.type.text}\" is required, but it was not provided.",
    [position]⟩

def providedRequiredArguments : Rule :=
  .stateless "PROVIDED_REQUIRED_ARGUMENTS" [.field, .directive] fun _ visit =>
    match visit.visit, visit.scope.field, visit.scope.directive with
    | .enterField field, some definition, _ =>
        (missingArguments definition.arguments field.arguments).map
          (missingArgument s!"Field \"{field.name}\"" field.position)
    | .directive directive _, _, some definition =>
        (missingArguments definition.arguments directive.arguments).map
          (missingArgument s!"Directive \"@{directive.name}\"" directive.position)
    | _, _, _ => []

/-- Written values can be coerced to the types expected of them, whatever the variables. -/
def valuesOfCorrectType : Rule :=
  .stateless "VALUES_OF_CORRECT_TYPE" [.argument, .variableDefinition] fun subject visit =>
    match visit.visit with
    | .argument name literal =>
        match visit.scope.inputType with
        | none => []
        | some type =>
            match subject.registry.coerceLiteral none literal type with
            | .ok _ => []
            | .error error =>
                [⟨s!"Argument \"{name}\" has invalid value {literal.text}. {error.text}",
                  [visit.scope.position]⟩]
    | .variableDefinition definition =>
        match definition.default with
        | none => []
        | some literal =>
            let type := TypeRef.ofExpr definition.type
            if !subject.registry.isInput type then []
            else
              match subject.registry.coerceLiteral none literal type with
              | .ok _ => []
              | .error error =>
                  [⟨s!"Variable \"${definition.name}\" has invalid default value {literal.text}. {error.text}",
                    [definition.position]⟩]
    | _ => []

end Rules

end GraphQL
