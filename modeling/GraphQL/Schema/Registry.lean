import GraphQL.Document.Basic
import GraphQL.Schema.Types
import GraphQL.Schema.Meta

/-!
The resolved view of a schema: its types by name, its root types, its directives, and the object
types that each interface and union can be at runtime.
-/

namespace GraphQL

structure Registry where
  /-- The registered types in the order of registration. -/
  types : List NamedType
  query : NamedType
  mutation : Option NamedType
  subscription : Option NamedType
  directives : List DirectiveDefinition
  /-- The names of the object types of every abstract type, in order of registration. -/
  possibleTypes : List (String × List String)

namespace Registry

def lookup? (registry : Registry) (name : String) : Option NamedType :=
  Named.find? registry.types name

def resolve? (registry : Registry) (type : TypeRef) : Option NamedType :=
  registry.lookup? type.typeName

def object? (registry : Registry) (name : String) : Option NamedType :=
  (registry.lookup? name).filter NamedType.isObject

def root? (registry : Registry) : OperationKind → Option NamedType
  | .query => some registry.query
  | .mutation => registry.mutation
  | .subscription => registry.subscription

def directive? (registry : Registry) (name : String) : Option DirectiveDefinition :=
  Named.find? registry.directives name

/-- A field of a composite type. Every composite type has `__typename`; the query root type also
has `__schema` and `__type`. -/
def field? (registry : Registry) (parent : NamedType) (name : String) : Option FieldDefinition :=
  if name = "__typename" ∧ parent.isComposite then some Meta.typenameField
  else if name = "__schema" ∧ parent.name = registry.query.name then some Meta.schemaField
  else if name = "__type" ∧ parent.name = registry.query.name then some Meta.typeField
  else parent.field? name

def possible (registry : Registry) (abstractName : String) : List String :=
  (Named.value? registry.possibleTypes abstractName).getD []

def isPossible (registry : Registry) (abstractType : NamedType) (objectName : String) : Bool :=
  (registry.possible abstractType.name).contains objectName

def overlap (registry : Registry) (left right : NamedType) : Bool :=
  if left.name = right.name then true
  else if left.isAbstract then
    if right.isAbstract then (registry.possible left.name).any (registry.isPossible right)
    else registry.isPossible left right.name
  else if right.isAbstract then registry.isPossible right left.name
  else false

def isInput (registry : Registry) (type : TypeRef) : Bool :=
  (registry.resolve? type).any NamedType.isInput

def isOutput (registry : Registry) (type : TypeRef) : Bool :=
  (registry.resolve? type).any NamedType.isOutput

def isLeaf (registry : Registry) (type : TypeRef) : Bool :=
  (registry.resolve? type).any NamedType.isLeaf

def isNamedSubType (registry : Registry) (sub super : TypeRef) : Bool :=
  if sub.typeName = super.typeName then true
  else
    match registry.resolve? super, registry.resolve? sub with
    | some superType, some subType =>
        superType.isAbstract && registry.isPossible superType subType.name
    | _, _ => false

/-- Whether a value of the first type can stand wherever the second is expected. -/
def isSubType (registry : Registry) : TypeRef → TypeRef → Bool
  | .nonNull sub, .nonNull super => isSubType registry sub super
  | .nonNull sub, super => isSubType registry sub super
  | _, .nonNull _ => false
  | .list sub, .list super => isSubType registry sub super
  | .list _, _ => false
  | _, .list _ => false
  | sub, super => isNamedSubType registry sub super

end Registry

end GraphQL
