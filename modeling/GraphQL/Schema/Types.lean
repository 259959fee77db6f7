import GraphQL.FieldValue
import GraphQL.Document.LiteralValue
import GraphQL.Schema.TypeRef

/-!
The types of a schema and the members they are made of.
-/

namespace GraphQL

inductive TypeKind where
  | scalar
  | object
  | interface
  | union
  | enum
  | inputObject
  | list
  | nonNull
deriving DecidableEq, Repr

namespace TypeKind

def text : TypeKind → String
  | .scalar => "SCALAR"
  | .object => "OBJECT"
  | .interface => "INTERFACE"
  | .union => "UNION"
  | .enum => "ENUM"
  | .inputObject => "INPUT_OBJECT"
  | .list => "LIST"
  | .nonNull => "NON_NULL"

def all : List TypeKind :=
  [.scalar, .object, .interface, .union, .enum, .inputObject, .list, .nonNull]

end TypeKind

structure InputValueDefinition where
  name : String
  type : TypeRef
  description : Option String := none
  /-- The value of an absent input, used as it is. -/
  default : Option Json := none
  deprecation : Option String := none

instance : Named InputValueDefinition := ⟨InputValueDefinition.name⟩

def InputValueDefinition.isRequired (definition : InputValueDefinition) : Bool :=
  definition.type.isNonNull && definition.default.isNone

/-- A field of an object or interface. Resolvers and subscribers are known by number; the
application that runs a request says what they do. -/
structure FieldDefinition where
  name : String
  type : TypeRef
  description : Option String := none
  arguments : List InputValueDefinition := []
  resolver : Option Nat := none
  subscriber : Option Nat := none
  deprecation : Option String := none

instance : Named FieldDefinition := ⟨FieldDefinition.name⟩

structure EnumValueDefinition where
  name : String
  value : Json
  description : Option String := none
  deprecation : Option String := none

instance : Named EnumValueDefinition := ⟨EnumValueDefinition.name⟩

structure ScalarShape where
  specifiedBy : Option String := none
  parseValue : Json → Except String Json
  parseLiteral : Literal → Except String Json
  serialize : Json → Except String Json

/-- A scalar that takes and gives any JSON value. In its literals variables are null. -/
def ScalarShape.any : ScalarShape where
  parseValue := .ok
  parseLiteral := Literal.toJson fun _ => none
  serialize := .ok

structure ObjectShape where
  interfaces : List TypeRef := []
  fields : List FieldDefinition := []
  isTypeOf : Option (FieldValue → Bool) := none

structure InterfaceShape where
  interfaces : List TypeRef := []
  fields : List FieldDefinition := []
  resolveType : Option (FieldValue → Option String) := none

structure UnionShape where
  members : List TypeRef := []
  resolveType : Option (FieldValue → Option String) := none

inductive TypeShape where
  | scalar (shape : ScalarShape)
  | object (shape : ObjectShape)
  | interface (shape : InterfaceShape)
  | union (shape : UnionShape)
  | enum (values : List EnumValueDefinition)
  | inputObject (fields : List InputValueDefinition)

structure NamedType where
  key : TypeKey
  name : String
  description : Option String := none
  shape : TypeShape

instance : Named NamedType := ⟨NamedType.name⟩

namespace NamedType

def toInstance (type : NamedType) : Instance := ⟨type.key, type.name⟩

def kind (type : NamedType) : TypeKind :=
  match type.shape with
  | .scalar _ => .scalar
  | .object _ => .object
  | .interface _ => .interface
  | .union _ => .union
  | .enum _ => .enum
  | .inputObject _ => .inputObject

def isLeaf (type : NamedType) : Bool :=
  match type.shape with
  | .scalar _ => true
  | .enum _ => true
  | _ => false

def isInput (type : NamedType) : Bool :=
  match type.shape with
  | .scalar _ => true
  | .enum _ => true
  | .inputObject _ => true
  | _ => false

def isOutput (type : NamedType) : Bool :=
  match type.shape with
  | .inputObject _ => false
  | _ => true

def isObject (type : NamedType) : Bool :=
  match type.shape with
  | .object _ => true
  | _ => false

def isAbstract (type : NamedType) : Bool :=
  match type.shape with
  | .interface _ => true
  | .union _ => true
  | _ => false

def isComposite (type : NamedType) : Bool := type.isObject || type.isAbstract

def object? (type : NamedType) : Option ObjectShape :=
  match type.shape with
  | .object shape => some shape
  | _ => none

def fields? (type : NamedType) : Option (List FieldDefinition) :=
  match type.shape with
  | .object shape => some shape.fields
  | .interface shape => some shape.fields
  | _ => none

def field? (type : NamedType) (name : String) : Option FieldDefinition :=
  type.fields?.bind fun fields => Named.find? fields name

def interfaces? (type : NamedType) : Option (List TypeRef) :=
  match type.shape with
  | .object shape => some shape.interfaces
  | .interface shape => some shape.interfaces
  | _ => none

def inputFields? (type : NamedType) : Option (List InputValueDefinition) :=
  match type.shape with
  | .inputObject fields => some fields
  | _ => none

def resolveType? (type : NamedType) : Option (FieldValue → Option String) :=
  match type.shape with
  | .interface shape => shape.resolveType
  | .union shape => shape.resolveType
  | _ => none

end NamedType

/-! ## Enum values -/

namespace EnumValueDefinition

def parseName? (values : List EnumValueDefinition) (name : String) : Option Json :=
  (Named.find? values name).map EnumValueDefinition.value

/-- The first enum value that stands for a JSON value. -/
def serialize? (values : List EnumValueDefinition) (value : Json) : Option String :=
  (values.find? fun definition => definition.value.same value).map EnumValueDefinition.name

end EnumValueDefinition

/-! ## Directives -/

inductive DirectiveLocation where
  | query
  | mutation
  | subscription
  | field
  | fragmentDefinition
  | fragmentSpread
  | inlineFragment
  | variableDefinition
  | schema
  | scalar
  | object
  | fieldDefinition
  | argumentDefinition
  | interface
  | union
  | enum
  | enumValue
  | inputObject
  | inputFieldDefinition
deriving DecidableEq, Repr

namespace DirectiveLocation

def text : DirectiveLocation → String
  | .query => "QUERY"
  | .mutation => "MUTATION"
  | .subscription => "SUBSCRIPTION"
  | .field => "FIELD"
  | .fragmentDefinition => "FRAGMENT_DEFINITION"
  | .fragmentSpread => "FRAGMENT_SPREAD"
  | .inlineFragment => "INLINE_FRAGMENT"
  | .variableDefinition => "VARIABLE_DEFINITION"
  | .schema => "SCHEMA"
  | .scalar => "SCALAR"
  | .object => "OBJECT"
  | .fieldDefinition => "FIELD_DEFINITION"
  | .argumentDefinition => "ARGUMENT_DEFINITION"
  | .interface => "INTERFACE"
  | .union => "UNION"
  | .enum => "ENUM"
  | .enumValue => "ENUM_VALUE"
  | .inputObject => "INPUT_OBJECT"
  | .inputFieldDefinition => "INPUT_FIELD_DEFINITION"

def all : List DirectiveLocation :=
  [.query, .mutation, .subscription, .field, .fragmentDefinition, .fragmentSpread,
    .inlineFragment, .variableDefinition, .schema, .scalar, .object, .fieldDefinition,
    .argumentDefinition, .interface, .union, .enum, .enumValue, .inputObject,
    .inputFieldDefinition]

def ofText? (name : String) : Option DirectiveLocation :=
  all.find? fun location => location.text == name

end DirectiveLocation

structure DirectiveDefinition where
  name : String
  description : Option String := none
  locations : List DirectiveLocation := []
  arguments : List InputValueDefinition := []
  repeatable : Bool := false

instance : Named DirectiveDefinition := ⟨DirectiveDefinition.name⟩

end GraphQL
