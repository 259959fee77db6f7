import GraphQL.Validation.Rule

/-!
Rules about names: operations, fragments, variables and arguments have names of their own, and
names refer to something that exists.
-/

namespace GraphQL

namespace Rules

abbrev FirstPositions := List (String × Position)

def noteName (known : FirstPositions) (name : String) (position : Position)
    (message : String) : FirstPositions × List Finding :=
  match Named.value? known name with
  | some first => (known, [⟨message, [first, position]⟩])
  | none => (known ++ [(name, position)], [])

def uniqueOperationNames : Rule where
  code := "UNIQUE_OPERATION_NAMES"
  interests := [.operation]
  State := FirstPositions
  initial := []
  visit _ known visit :=
    match visit.visit with
    | .enterOperation operation =>
        match operation.name with
        | some name =>
            noteName known name operation.position
              s!"There can be only one operation named \"{name}\"."
        | none => (known, [])
    | _ => (known, [])

def loneAnonymousOperation : Rule where
  code := "LONE_ANONYMOUS_OPERATION"
  interests := [.document, .operation]
  State := Nat
  initial := 0
  visit subject count visit :=
    match visit.visit with
    | .enterDocument => (subject.document.operations.length, [])
    | .enterOperation operation =>
        if operation.name.isNone && 1 < count then
          (count, [⟨"This anonymous operation must be the only defined operation.",
            [operation.position]⟩])
        else (count, [])
    | _ => (count, [])

def uniqueFragmentNames : Rule where
  code := "UNIQUE_FRAGMENT_NAMES"
  interests := [.fragment]
  State := FirstPositions
  initial := []
  visit _ known visit :=
    match visit.visit with
    | .enterFragment fragment =>
        noteName known fragment.name fragment.position
          s!"There can be only one fragment named \"{fragment.name}\"."
    | _ => (known, [])

def uniqueVariableNames : Rule where
  code := "UNIQUE_VARIABLE_NAMES"
  interests := [.operation, .variableDefinition]
  State := FirstPositions
  initial := []
  visit _ known visit :=
    match visit.visit with
    | .enterOperation _ => ([], [])
    | .variableDefinition definition =>
        noteName known definition.name definition.position
          s!"There can be only one variable named \"${definition.name}\"."
    | _ => (known, [])

/-- The names that occur more than once, each once, in the order of their second occurrence. -/
def repeatedNames (names : List String) : List String :=
  (names.foldl
    (fun (seen, repeated) name =>
      if !seen.contains name then (seen ++ [name], repeated)
      else if repeated.contains name then (seen, repeated)
      else (seen, repeated ++ [name]))
    (([] : List String), ([] : List String))).2

def uniqueArgumentNames : Rule :=
  .stateless "UNIQUE_ARGUMENT_NAMES" [.argument] fun _ visit =>
    match visit.visit with
    | .arguments written =>
        (repeatedNames (Named.names written)).map fun name =>
          ⟨s!"There can be only one argument named \"{name}\".", [visit.scope.position]⟩
    | _ => []

def knownFragmentNames : Rule :=
  .stateless "KNOWN_FRAGMENT_NAMES" [.spread] fun subject visit =>
    match visit.visit with
    | .spread spread =>
        if (subject.document.fragment? spread.name).isSome then []
        else [⟨s!"Unknown fragment \"{spread.name}\".", [spread.position]⟩]
    | _ => []

def knownType (registry : Registry) (name : String) (position : Position) : List Finding :=
  if (registry.lookup? name).isSome then [] else [⟨s!"Unknown type \"{name}\".", [position]⟩]

def knownTypeNames : Rule :=
  .stateless "KNOWN_TYPE_NAMES" [.variableDefinition, .fragment, .inline] fun subject visit =>
    match visit.visit with
    | .variableDefinition definition =>
        knownType subject.registry (TypeRef.ofExpr definition.type).typeName definition.position
    | .enterFragment fragment =>
        knownType subject.registry fragment.condition fragment.position
    | .enterInline fragment =>
        match fragment.condition with
        | some name => knownType subject.registry name fragment.position
        | none => []
    | _ => []

def knownArgumentNames : Rule :=
  .stateless "KNOWN_ARGUMENT_NAMES" [.argument] fun _ visit =>
    match visit.visit, visit.scope.arguments with
    | .argument name _, some definitions =>
        if Named.contains definitions name then []
        else
          match visit.scope.directive, visit.scope.field with
          | some directive, _ =>
              [⟨s!"Unknown argument \"{name}\" on directive \"@{directive.name}\".",
                [visit.scope.position]⟩]
          | none, some field =>
              let parent := (visit.scope.parent.map NamedType.name).getD ""
              [⟨s!"Unknown argument \"{name}\" on field \"{parent}.{field.name}\".",
                [visit.scope.position]⟩]
          | none, none => []
    | _, _ => []

end Rules

end GraphQL
