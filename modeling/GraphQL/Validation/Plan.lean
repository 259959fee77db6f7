import GraphQL.Validation.Rules.Directives
import GraphQL.Validation.Rules.Fields
import GraphQL.Validation.Rules.Fragments
import GraphQL.Validation.Rules.Names
import GraphQL.Validation.Rules.Overlap
import GraphQL.Validation.Rules.Subscriptions
import GraphQL.Validation.Rules.Variables

/-!
The default plan of rules, and switching rules off by their codes.
-/

namespace GraphQL

def defaultPlan : List Rule :=
  [Rules.uniqueOperationNames, Rules.loneAnonymousOperation, Rules.singleFieldSubscriptions,
    Rules.knownTypeNames, Rules.fragmentsOnCompositeTypes, Rules.variablesAreInputTypes,
    Rules.leafFieldSelections, Rules.fieldsOnCorrectType, Rules.uniqueFragmentNames,
    Rules.knownFragmentNames, Rules.noUnusedFragments, Rules.possibleFragmentSpreads,
    Rules.noFragmentCycles, Rules.uniqueVariableNames, Rules.noUndefinedVariables,
    Rules.noUnusedVariables, Rules.knownDirectives, Rules.uniqueDirectivesPerLocation,
    Rules.knownArgumentNames, Rules.uniqueArgumentNames, Rules.valuesOfCorrectType,
    Rules.providedRequiredArguments, Rules.variablesInAllowedPosition,
    Rules.overlappingFieldsCanBeMerged]

structure ValidationSettings where
  enabled : Bool := true
  /-- The codes of rules to skip, in any case. -/
  disabledRules : List String := []

def sameIgnoringCase (left right : String) : Bool :=
  left.toList.map Char.toLower == right.toList.map Char.toLower

namespace ValidationSettings

def allows (settings : ValidationSettings) (code : String) : Bool :=
  !settings.disabledRules.any (sameIgnoringCase · code)

def configure (settings : ValidationSettings) (plan : List Rule) : List Rule :=
  if settings.enabled then plan.filter fun rule => settings.allows rule.code else []

end ValidationSettings

end GraphQL
