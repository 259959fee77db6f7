import GraphQL.Validation.Rule
import GraphQL.Validation.Usages

/-!
Rules about variables: they have input types, are defined where they are used and used where they
are defined, and fit the positions they are used in.
-/

namespace GraphQL

namespace Rules

def variablesAreInputTypes : Rule :=
  .stateless "VARIABLES_ARE_INPUT_TYPES" [.variableDefinition] fun subject visit =>
    match visit.visit with
    | .variableDefinition definition =>
        let type := TypeRef.ofExpr definition.type
        if (subject.registry.resolve? type).any fun named => !named.isInput then
          [⟨s!"Variable \"${definition.name}\" cannot be non-input type \"{type.text}\".",
            [definition.position]⟩]
        else []
    | _ => []

/-- Keep track of definitions and spreads, and of what `record?` takes from a value. -/
def track {α : Type} (record? : Scope → Literal → Option α) (usages : Usages α)
    (visit : ScopedVisit) : Usages α :=
  match visit.visit with
  | .enterOperation operation => usages.enterOperation operation
  | .leaveOperation _ => usages.leave
  | .enterFragment fragment => usages.enterFragment fragment.name
  | .leaveFragment _ => usages.leave
  | .spread spread => usages.recordSpread spread.name
  | .value literal =>
      match record? visit.scope literal with
      | some usage => usages.record usage
      | none => usages
  | _ => usages

def usageInterests : List NodeKind := [.document, .operation, .fragment, .spread, .value]

def usageRule {α : Type} (code : String) (record? : Scope → Literal → Option α)
    (judge : Subject → Operation → List α → List Finding) : Rule where
  code := code
  interests := usageInterests
  State := Usages α
  initial := {}
  visit subject usages visit :=
    match visit.visit with
    | .leaveDocument =>
        (usages, usages.operations.flatMap fun (operation, recorded) =>
          judge subject operation (usages.ofOperation recorded))
    | _ => (track record? usages visit, [])

def definedNames (operation : Operation) : List String :=
  operation.variableDefinitions.map VariableDefinition.name

def variableAtPosition? (scope : Scope) : Literal → Option (String × Position)
  | .variable name => some (name, scope.position)
  | _ => none

def noUndefinedVariables : Rule :=
  usageRule "NO_UNDEFINED_VARIABLES" variableAtPosition? fun _ operation usages =>
    (usages.filter fun usage => !(definedNames operation).contains usage.1).map
      fun (name, position) =>
        { message := match operation.name with
            | some operationName =>
                s!"Variable \"${name}\" is not defined by operation \"{operationName}\"."
            | none => s!"Variable \"${name}\" is not defined."
          locations := [position, operation.position] }

def variableName? (_ : Scope) : Literal → Option String
  | .variable name => some name
  | _ => none

def noUnusedVariables : Rule :=
  usageRule "NO_UNUSED_VARIABLES" variableName? fun _ operation usages =>
    (operation.variableDefinitions.filter fun definition => !usages.contains definition.name).map
      fun definition =>
        { message := match operation.name with
            | some operationName =>
                s!"Variable \"${definition.name}\" is never used in operation \"{operationName}\"."
            | none => s!"Variable \"${definition.name}\" is never used."
          locations := [definition.position] }

structure VariableUsage where
  name : String
  locationType : TypeRef
  /-- Whether the argument or input field of the position has a default. -/
  locationHasDefault : Bool
  position : Position

def variableUsage? (scope : Scope) : Literal → Option VariableUsage
  | .variable name =>
      scope.inputType.map fun type =>
        { name := name
          locationType := type
          locationHasDefault := scope.input.any fun definition => definition.default.isSome
          position := scope.position }
  | _ => none

def isAllowed (registry : Registry) (variableType : TypeRef) : TypeRef → Bool
  | .nonNull (.list item) =>
      registry.isSubType variableType (.nonNull (.list item)) ||
        isAllowed registry variableType item
  | .list item =>
      registry.isSubType variableType (.list item) || isAllowed registry variableType item
  | location => registry.isSubType variableType location

def hasNonNullDefault (definition : VariableDefinition) : Bool :=
  definition.default.any fun literal => !literal.isNull

/-- The type that a position asks of a variable: a default on either side allows null. -/
def effectiveLocation (variableType : TypeRef) (variableHasDefault : Bool)
    (usage : VariableUsage) : TypeRef :=
  match usage.locationType with
  | .nonNull inner =>
      if !variableType.isNonNull && (variableHasDefault || usage.locationHasDefault) then inner
      else .nonNull inner
  | other => other

def misplaced? (registry : Registry) (operation : Operation) (usage : VariableUsage) :
    Option Finding :=
  let isMeant (definition : VariableDefinition) : Bool := definition.name == usage.name
  match operation.variableDefinitions.reverse.find? isMeant with
  | none => none
  | some definition =>
      let type := TypeRef.ofExpr definition.type
      if (registry.resolve? type).isNone then none
      else if isAllowed registry type (effectiveLocation type (hasNonNullDefault definition) usage)
      then none
      else
        some
          ⟨s!"Variable \"${usage.name}\" of type \"{type.text}\" used in position expecting type \"{usage.locationType.text}\".",
            [usage.position]⟩

def variablesInAllowedPosition : Rule :=
  usageRule "VARIABLES_IN_ALLOWED_POSITION" variableUsage? fun subject operation usages =>
    usages.filterMap (misplaced? subject.registry operation)

end Rules

end GraphQL
