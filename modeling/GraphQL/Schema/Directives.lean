import GraphQL.Schema.Types

/-!
The directives that every schema knows.
-/

namespace GraphQL

namespace DirectiveDefinition

def defaultDeprecationReason : String := "No longer supported"

def isBuiltIn (name : String) : Bool := ["skip", "include", "deprecated", "specifiedBy"].contains name

def isAllowedAt (directive : DirectiveDefinition) (location : DirectiveLocation) : Bool :=
  directive.locations.contains location

def executableLocations : List DirectiveLocation := [.field, .fragmentSpread, .inlineFragment]

def includeDirective : DirectiveDefinition where
  name := "include"
  description := some
    "Directs the executor to include this field or fragment only when the `if` argument is true."
  locations := executableLocations
  arguments :=
    [{ name := "if", type := .nonNull (.named "Boolean"), description := some "Included when true." }]

def skipDirective : DirectiveDefinition where
  name := "skip"
  description := some
    "Directs the executor to skip this field or fragment when the `if` argument is true."
  locations := executableLocations
  arguments :=
    [{ name := "if", type := .nonNull (.named "Boolean"), description := some "Skipped when true." }]

def deprecatedDirective : DirectiveDefinition where
  name := "deprecated"
  description := some "Marks an element of a GraphQL schema as no longer supported."
  locations := [.fieldDefinition, .argumentDefinition, .inputFieldDefinition, .enumValue]
  arguments :=
    [{ name := "reason", type := .named "String", default := some (.string defaultDeprecationReason) }]

def specifiedByDirective : DirectiveDefinition where
  name := "specifiedBy"
  description := some "Exposes a URL that specifies the behavior of this scalar."
  locations := [.scalar]
  arguments :=
    [{ name := "url", type := .nonNull (.named "String"),
       description := some "The URL that specifies the behavior of this scalar." }]

def builtIn : List DirectiveDefinition :=
  [includeDirective, skipDirective, deprecatedDirective, specifiedByDirective]

end DirectiveDefinition

end GraphQL
