import GraphQL.Schema.Registry

/-!
What a registry says about itself: for every object of introspection the values of its fields.
-/

namespace GraphQL

inductive MetaObject where
  | schema
  | type (type : NamedType)
  | listOf (item : TypeRef)
  | nonNullOf (inner : TypeRef)
  | field (definition : FieldDefinition)
  | inputValue (definition : InputValueDefinition)
  | enumValue (definition : EnumValueDefinition)
  | directive (definition : DirectiveDefinition)

inductive MetaValue where
  | leaf (value : Json)
  | object (object : Option MetaObject)
  | list (objects : List (Option MetaObject))

/-! ## Default values -/

namespace Registry

/-- An input value that is no list or object of its type: the name of an enum value, or JSON. -/
def printLeaf (registry : Registry) (type : TypeRef) (value : Json) : String :=
  match (registry.resolve? type).map NamedType.shape with
  | some (.enum values) => (EnumValueDefinition.serialize? values value).getD value.text
  | _ => value.text

mutual

def printInput (registry : Registry) (type : TypeRef) : Json → String
  | .null => "null"
  | .bool value => registry.printLeaf type (.bool value)
  | .number value => registry.printLeaf type (.number value)
  | .string value => registry.printLeaf type (.string value)
  | .array items =>
      match type.listItem? with
      | some item => "[" ++ ", ".intercalate (printInputs registry item items) ++ "]"
      | none => registry.printLeaf type (.array items)
  | .object fields =>
      match (registry.resolve? type).map NamedType.shape with
      | some (.inputObject definitions) =>
          "\x7b" ++ ", ".intercalate (printFields registry definitions fields) ++ "\x7d"
      | _ => registry.printLeaf type (.object fields)

def printInputs (registry : Registry) (type : TypeRef) : List Json → List String
  | [] => []
  | item :: items => printInput registry type item :: printInputs registry type items

def printFields (registry : Registry) (definitions : List InputValueDefinition) :
    List (String × Json) → List String
  | [] => []
  | (name, value) :: fields =>
      (name ++ ": " ++
        match Named.find? definitions name with
        | some definition => printInput registry definition.type value
        | none => value.text) :: printFields registry definitions fields

end

end Registry

/-! ## The fields of meta objects -/

namespace MetaValue

def string (text : String) : MetaValue := .leaf (.string text)

def optionalString (text : Option String) : MetaValue := .leaf (text.elim .null .string)

def null : MetaValue := .leaf .null

end MetaValue

namespace MetaObject

def typeName : MetaObject → String
  | .schema => "__Schema"
  | .type _ => "__Type"
  | .listOf _ => "__Type"
  | .nonNullOf _ => "__Type"
  | .field _ => "__Field"
  | .inputValue _ => "__InputValue"
  | .enumValue _ => "__EnumValue"
  | .directive _ => "__Directive"

def named? (registry : Registry) (name : String) : Option MetaObject :=
  (registry.lookup? name).map .type

def ofRef? (registry : Registry) : TypeRef → Option MetaObject
  | .nonNull inner => some (.nonNullOf inner)
  | .list item => some (.listOf item)
  | other => named? registry other.typeName

def visible {α : Type} (includeDeprecated : Bool) (deprecation : α → Option String)
    (members : List α) : List α :=
  members.filter fun member => includeDeprecated || (deprecation member).isNone

def inputValues (includeDeprecated : Bool) (definitions : List InputValueDefinition) : MetaValue :=
  .list ((visible includeDeprecated InputValueDefinition.deprecation definitions).map
    fun definition => some (.inputValue definition))

def schemaField (registry : Registry) : String → MetaValue
  | "types" => .list (registry.types.map fun type => some (.type type))
  | "queryType" => .object (named? registry registry.query.name)
  | "mutationType" => .object (registry.mutation.bind fun type => named? registry type.name)
  | "subscriptionType" =>
      .object (registry.subscription.bind fun type => named? registry type.name)
  | "directives" => .list (registry.directives.map fun definition => some (.directive definition))
  | _ => .null

def specifiedBy? (type : NamedType) : Option String :=
  match type.shape with
  | .scalar shape => shape.specifiedBy
  | _ => none

def enumValues? (type : NamedType) : Option (List EnumValueDefinition) :=
  match type.shape with
  | .enum values => some values
  | _ => none

def typeField (registry : Registry) (includeDeprecated : Bool) (type : NamedType) :
    String → MetaValue
  | "kind" => .string type.kind.text
  | "name" => .string type.name
  | "description" => .optionalString type.description
  | "specifiedByURL" => .optionalString (specifiedBy? type)
  | "fields" =>
      type.fields?.elim .null fun definitions =>
        .list ((visible includeDeprecated FieldDefinition.deprecation definitions).map
          fun definition => some (.field definition))
  | "interfaces" => type.interfaces?.elim .null fun types => .list (types.map (ofRef? registry))
  | "possibleTypes" =>
      if type.isAbstract then .list ((registry.possible type.name).map (named? registry)) else .null
  | "enumValues" =>
      (enumValues? type).elim .null fun definitions =>
        .list ((visible includeDeprecated EnumValueDefinition.deprecation definitions).map
          fun definition => some (.enumValue definition))
  | "inputFields" => type.inputFields?.elim .null (inputValues includeDeprecated)
  | _ => .null

/-- A type that is only a wrapper has a kind and the type inside it. -/
def wrapperField (registry : Registry) (kind : TypeKind) (inner : TypeRef) : String → MetaValue
  | "kind" => .string kind.text
  | "ofType" => .object (ofRef? registry inner)
  | _ => .null

def fieldField (registry : Registry) (includeDeprecated : Bool) (definition : FieldDefinition) :
    String → MetaValue
  | "name" => .string definition.name
  | "description" => .optionalString definition.description
  | "args" => inputValues includeDeprecated definition.arguments
  | "type" => .object (ofRef? registry definition.type)
  | "isDeprecated" => .leaf (.bool definition.deprecation.isSome)
  | "deprecationReason" => .optionalString definition.deprecation
  | _ => .null

def inputValueField (registry : Registry) (definition : InputValueDefinition) :
    String → MetaValue
  | "name" => .string definition.name
  | "description" => .optionalString definition.description
  | "type" => .object (ofRef? registry definition.type)
  | "defaultValue" => .optionalString (definition.default.map (registry.printInput definition.type))
  | "isDeprecated" => .leaf (.bool definition.deprecation.isSome)
  | "deprecationReason" => .optionalString definition.deprecation
  | _ => .null

def enumValueField (definition : EnumValueDefinition) : String → MetaValue
  | "name" => .string definition.name
  | "description" => .optionalString definition.description
  | "isDeprecated" => .leaf (.bool definition.deprecation.isSome)
  | "deprecationReason" => .optionalString definition.deprecation
  | _ => .null

def directiveField (includeDeprecated : Bool) (definition : DirectiveDefinition) :
    String → MetaValue
  | "name" => .string definition.name
  | "description" => .optionalString definition.description
  | "isRepeatable" => .leaf (.bool definition.repeatable)
  | "locations" => .leaf (.array (definition.locations.map fun place => .string place.text))
  | "args" => inputValues includeDeprecated definition.arguments
  | _ => .null

/-- The value of a field of a meta object. Fields that it does not have are null. -/
def property (registry : Registry) (includeDeprecated : Bool) : MetaObject → String → MetaValue
  | .schema => schemaField registry
  | .type definition => typeField registry includeDeprecated definition
  | .listOf item => wrapperField registry .list item
  | .nonNullOf inner => wrapperField registry .nonNull inner
  | .field definition => fieldField registry includeDeprecated definition
  | .inputValue definition => inputValueField registry definition
  | .enumValue definition => enumValueField definition
  | .directive definition => directiveField includeDeprecated definition

end MetaObject

end GraphQL
