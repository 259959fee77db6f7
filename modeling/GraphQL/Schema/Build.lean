import GraphQL.Schema.Directives
import GraphQL.Schema.Registry
import GraphQL.Schema.Scalars

/-!
Building the registry of a schema. Types are registered depth first, along the direct and deferred
references of their members; references by name are checked once everything is registered.
-/

namespace GraphQL

inductive SchemaError where
  | duplicateTypeName (name : String)
  | unknownType (name referencedBy : String)
  | cyclicTypeReference (name : String)
  | invalidRootType (operation : OperationKind) (name : String)
  | invalidInterface (implementor interface : String)
  | invalidUnionMember (union member : String)
  | invalidFieldType (coordinate reason : String)
  | duplicateDirective (name : String)
deriving DecidableEq

def SchemaError.message : SchemaError → String
  | .duplicateTypeName name =>
      s!"Type \"{name}\" is defined more than once with different definitions"
  | .unknownType name referencedBy => s!"Unknown type \"{name}\" referenced by \"{referencedBy}\""
  | .cyclicTypeReference name =>
      s!"Type \"{name}\" references itself while it is being registered"
  | .invalidRootType operation name =>
      s!"The {operation.keyword} root type must be an object type, \"{name}\" is not"
  | .invalidInterface implementor interface =>
      s!"\"{implementor}\" cannot implement \"{interface}\", which is not an interface type"
  | .invalidUnionMember union member =>
      s!"Union \"{union}\" can only include object types, \"{member}\" is not one"
  | .invalidFieldType coordinate reason => s!"Invalid type for \"{coordinate}\": {reason}"
  | .duplicateDirective name => s!"Directive \"@{name}\" is defined more than once"

/-- A schema as the application assembles it. References mean instances of the pool. -/
structure Schema where
  pool : List NamedType
  query : Instance
  mutation : Option Instance := none
  subscription : Option Instance := none
  /-- Types to register beside the roots. -/
  types : List Instance := []
  /-- Directives beside the built-in ones. -/
  directives : List DirectiveDefinition := []

namespace NamedType

def argumentReferences (coordinate : String) (arguments : List InputValueDefinition) :
    List (TypeRef × String) :=
  arguments.map fun argument => (argument.type, s!"{coordinate}({argument.name}:)")

def fieldReferences (owner : String) (field : FieldDefinition) : List (TypeRef × String) :=
  (field.type, s!"{owner}.{field.name}") ::
    argumentReferences s!"{owner}.{field.name}" field.arguments

def references (type : NamedType) : List (TypeRef × String) :=
  match type.shape with
  | .object shape =>
      shape.interfaces.map (·, type.name) ++ shape.fields.flatMap (fieldReferences type.name)
  | .interface shape =>
      shape.interfaces.map (·, type.name) ++ shape.fields.flatMap (fieldReferences type.name)
  | .union shape => shape.members.map (·, type.name)
  | .inputObject fields => fields.map fun field => (field.type, s!"{type.name}.{field.name}")
  | .scalar _ => []
  | .enum _ => []

end NamedType

namespace Schema

def instances (schema : Schema) : List NamedType := Scalar.all ++ Meta.all ++ schema.pool

def instance? (schema : Schema) (target : Instance) : Option NamedType :=
  schema.instances.find? fun type => type.key = target.key ∧ type.name = target.name

/-! ## Registration -/

structure Progress where
  types : List NamedType := []
  /-- The instances whose references are being followed. -/
  active : List TypeKey := []
  /-- The references by name and the places that make them, in order. -/
  names : List (String × String) := []

/-- Register an instance and everything it refers to by instance. Registration nests no deeper
than there are instances, unless a type leads back to itself. -/
def register (schema : Schema) : (depth : Nat) → Progress → Instance → String →
    Except SchemaError Progress
  | 0, _, target, _ => .error (.cyclicTypeReference target.name)
  | depth + 1, progress, target, referencedBy =>
      match Named.find? progress.types target.name with
      | some existing =>
          if existing.key ≠ target.key then .error (.duplicateTypeName target.name)
          else if progress.active.contains target.key then
            .error (.cyclicTypeReference target.name)
          else .ok progress
      | none =>
          match schema.instance? target with
          | none => .error (.unknownType target.name referencedBy)
          | some type => do
              let started : Progress :=
                { progress with
                  types := progress.types ++ [type]
                  active := target.key :: progress.active }
              let finished ← type.references.foldlM
                (fun progress (reference, place) =>
                  match reference.innermost with
                  | .named name =>
                      .ok { progress with names := progress.names ++ [(name, place)] }
                  | .direct target => register schema depth progress target place
                  | .deferred target => register schema depth progress target place
                  | _ => .ok progress)
                started
              return { finished with active := progress.active }

def visit (schema : Schema) (progress : Progress) (reference : TypeRef) (place : String) :
    Except SchemaError Progress :=
  match reference.innermost with
  | .named name => .ok { progress with names := progress.names ++ [(name, place)] }
  | .direct target => register schema (schema.instances.length + 1) progress target place
  | .deferred target => register schema (schema.instances.length + 1) progress target place
  | _ => .ok progress

def registered (schema : Schema) : List Instance :=
  (Scalar.all ++ Meta.all).map NamedType.toInstance ++
    schema.query :: schema.mutation.toList ++ schema.subscription.toList ++ schema.types

def allDirectives (schema : Schema) : List DirectiveDefinition :=
  DirectiveDefinition.builtIn ++ schema.directives

def addDirective (schema : Schema) (state : Progress × List DirectiveDefinition)
    (directive : DirectiveDefinition) :
    Except SchemaError (Progress × List DirectiveDefinition) := do
  let (progress, known) := state
  if Named.contains known directive.name then .error (.duplicateDirective directive.name)
  else
    let progress ← directive.arguments.foldlM
      (fun progress argument => schema.visit progress argument.type s!"@{directive.name}")
      progress
    return (progress, known ++ [directive])

/-! ## Checks -/

def unknownName? (types : List NamedType) (names : List (String × String)) : Option SchemaError :=
  names.findSome? fun (name, place) =>
    if Named.contains types name then none else some (.unknownType name place)

def inputProblem? (types : List NamedType) (type : TypeRef) (coordinate : String) :
    Option SchemaError :=
  if (Named.find? types type.typeName).any NamedType.isInput then none
  else some (.invalidFieldType coordinate s!"\"{type.text}\" is not an input type")

def fieldProblem? (types : List NamedType) (owner : String) (field : FieldDefinition) :
    Option SchemaError :=
  if (Named.find? types field.type.typeName).any NamedType.isOutput then
    field.arguments.findSome? fun argument =>
      inputProblem? types argument.type s!"{owner}.{field.name}({argument.name}:)"
  else
    some (.invalidFieldType s!"{owner}.{field.name}"
      s!"\"{field.type.text}\" is not an output type")

def interfaceProblem? (types : List NamedType) (owner : String) (interface : TypeRef) :
    Option SchemaError :=
  match (Named.find? types interface.typeName).map NamedType.kind with
  | some .interface => none
  | _ => some (.invalidInterface owner interface.typeName)

def memberProblem? (types : List NamedType) (owner : String) (member : TypeRef) :
    Option SchemaError :=
  if (Named.find? types member.typeName).any NamedType.isObject then none
  else some (.invalidUnionMember owner member.typeName)

def typeProblem? (types : List NamedType) (type : NamedType) : Option SchemaError :=
  match type.shape with
  | .object shape =>
      (shape.interfaces.findSome? (interfaceProblem? types type.name)).or
        (shape.fields.findSome? (fieldProblem? types type.name))
  | .interface shape =>
      (shape.interfaces.findSome? (interfaceProblem? types type.name)).or
        (shape.fields.findSome? (fieldProblem? types type.name))
  | .union shape => shape.members.findSome? (memberProblem? types type.name)
  | .inputObject fields =>
      fields.findSome? fun field => inputProblem? types field.type s!"{type.name}.{field.name}"
  | .scalar _ => none
  | .enum _ => none

def rootObject (types : List NamedType) (operation : OperationKind) (root : Instance) :
    Except SchemaError NamedType :=
  match (Named.find? types root.name).filter NamedType.isObject with
  | some type => .ok type
  | none => .error (.invalidRootType operation root.name)

def optionalRoot (types : List NamedType) (operation : OperationKind) :
    Option Instance → Except SchemaError (Option NamedType)
  | none => .ok none
  | some root => (rootObject types operation root).map some

/-! ## Possible types -/

def addPossible (possible : List (String × List String)) (abstractName objectName : String) :
    List (String × List String) :=
  let known := (Named.value? possible abstractName).getD []
  Named.put possible
    (abstractName, if known.contains objectName then known else known ++ [objectName])

/-- Object types belong to the interfaces they declare, and to the unions that list them. -/
def possibleTypes (types : List NamedType) : List (String × List String) :=
  types.foldl
    (fun possible type =>
      match type.shape with
      | .object shape =>
          shape.interfaces.foldl
            (fun possible interface => addPossible possible interface.typeName type.name) possible
      | .union shape =>
          shape.members.foldl
            (fun possible member => addPossible possible type.name member.typeName) possible
      | _ => possible)
    []

/-! ## The registry -/

def build (schema : Schema) : Except SchemaError Registry := do
  let progress ← schema.registered.foldlM
    (fun progress target =>
      schema.register (schema.instances.length + 1) progress target target.name)
    {}
  let (progress, directives) ← schema.allDirectives.foldlM schema.addDirective (progress, [])
  let types := progress.types
  match unknownName? types progress.names with
  | some error => .error error
  | none =>
      match types.findSome? (typeProblem? types) with
      | some error => .error error
      | none => do
          let query ← rootObject types .query schema.query
          let mutation ← optionalRoot types .mutation schema.mutation
          let subscription ← optionalRoot types .subscription schema.subscription
          return {
            types := types
            query := query
            mutation := mutation
            subscription := subscription
            directives := directives
            possibleTypes := possibleTypes types }

end Schema

end GraphQL
