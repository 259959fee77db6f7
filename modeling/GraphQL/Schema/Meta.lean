import GraphQL.Schema.Types

/-!
The types through which a schema describes itself, and the fields that lead to them.
-/

namespace GraphQL

namespace Meta

/-! ## The meta fields -/

def typenameField : FieldDefinition where
  name := "__typename"
  type := .nonNull (.named "String")
  description := some "The name of the current Object type at runtime."

def schemaField : FieldDefinition where
  name := "__schema"
  type := .nonNull (.named "__Schema")
  description := some "Access the current type schema of this server."

def typeField : FieldDefinition where
  name := "__type"
  type := .named "__Type"
  description := some "Request the type information of a single type."
  arguments := [{ name := "name", type := .nonNull (.named "String") }]

/-! ## The meta types -/

def requiredList (name : String) : TypeRef := .nonNull (.list (.nonNull (.named name)))

def optionalList (name : String) : TypeRef := .list (.nonNull (.named name))

def required (name : String) : TypeRef := .nonNull (.named name)

def includeDeprecated : InputValueDefinition where
  name := "includeDeprecated"
  type := .named "Boolean"
  default := some (.bool false)

def field (name : String) (type : TypeRef) (arguments : List InputValueDefinition) :
    FieldDefinition where
  name := name
  type := type
  arguments := arguments

def metaType (name : String) (shape : TypeShape) (description : Option String) : NamedType where
  key := .builtIn name
  name := name
  description := description
  shape := shape

def schemaType : NamedType :=
  metaType "__Schema"
    (.object { fields :=
      [field "description" (.named "String") [],
        field "types" (requiredList "__Type") [],
        field "queryType" (required "__Type") [],
        field "mutationType" (.named "__Type") [],
        field "subscriptionType" (.named "__Type") [],
        field "directives" (requiredList "__Directive") []] })
    (some "A GraphQL Schema defines the capabilities of a GraphQL server. It exposes all available types and directives on the server, as well as the entry points for query, mutation, and subscription operations.")

def typeType : NamedType :=
  metaType "__Type"
    (.object { fields :=
      [field "kind" (required "__TypeKind") [],
        field "name" (.named "String") [],
        field "description" (.named "String") [],
        field "specifiedByURL" (.named "String") [],
        field "fields" (optionalList "__Field") [includeDeprecated],
        field "interfaces" (optionalList "__Type") [],
        field "possibleTypes" (optionalList "__Type") [],
        field "enumValues" (optionalList "__EnumValue") [includeDeprecated],
        field "inputFields" (optionalList "__InputValue") [includeDeprecated],
        field "ofType" (.named "__Type") []] })
    none

def deprecationFields : List FieldDefinition :=
  [field "isDeprecated" (required "Boolean") [], field "deprecationReason" (.named "String") []]

def fieldType : NamedType :=
  metaType "__Field"
    (.object { fields :=
      [field "name" (required "String") [],
        field "description" (.named "String") [],
        field "args" (requiredList "__InputValue") [includeDeprecated],
        field "type" (required "__Type") []] ++ deprecationFields })
    none

def inputValueType : NamedType :=
  metaType "__InputValue"
    (.object { fields :=
      [field "name" (required "String") [],
        field "description" (.named "String") [],
        field "type" (required "__Type") [],
        field "defaultValue" (.named "String") []] ++ deprecationFields })
    none

def enumValueType : NamedType :=
  metaType "__EnumValue"
    (.object { fields :=
      [field "name" (required "String") [],
        field "description" (.named "String") []] ++ deprecationFields })
    none

def directiveType : NamedType :=
  metaType "__Directive"
    (.object { fields :=
      [field "name" (required "String") [],
        field "description" (.named "String") [],
        field "isRepeatable" (required "Boolean") [],
        field "locations" (requiredList "__DirectiveLocation") [],
        field "args" (requiredList "__InputValue") [includeDeprecated]] })
    none

def enumOf (names : List String) : TypeShape :=
  .enum (names.map fun name => { name := name, value := .string name })

def typeKindType : NamedType :=
  metaType "__TypeKind" (enumOf (TypeKind.all.map TypeKind.text)) none

def directiveLocationType : NamedType :=
  metaType "__DirectiveLocation" (enumOf (DirectiveLocation.all.map DirectiveLocation.text)) none

def all : List NamedType :=
  [schemaType, typeType, fieldType, inputValueType, enumValueType, directiveType, typeKindType,
    directiveLocationType]

def isMetaName (name : String) : Bool := "__".toList.isPrefixOf name.toList

end Meta

end GraphQL
