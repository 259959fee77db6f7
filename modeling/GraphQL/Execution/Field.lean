import GraphQL.Coercion.Request
import GraphQL.Execution.Introspection
import GraphQL.Execution.Resolver
import GraphQL.Execution.Tree

/-!
One field of one object: calling its resolver, and completing the value it answers to what the type
of the field asks for.
-/

namespace GraphQL

structure FieldCall where
  parentType : String
  definition : FieldDefinition
  /-- All fields of the document with this response name on this object. -/
  fields : List Field
  parent : FieldValue

namespace FieldCall

def isMeta (call : FieldCall) : Bool :=
  call.definition.name == "__schema" || call.definition.name == "__type"

def coordinate (call : FieldCall) : String := call.parentType ++ "." ++ call.definition.name

def selectionSets (call : FieldCall) : List (List Selection) := call.fields.map Field.selections

end FieldCall

structure FieldTask extends FieldCall where
  node : NodeId

inductive Resolution where
  | outcome (outcome : Outcome FieldValue)
  | invalidArguments (error : CoercionError)

/-- An error of a field, the node at which it arose, and the position that it nulled: a node at or
above that one, or all data. -/
structure Failure where
  error : ResponseError
  node : NodeId
  nulled : Option NodeId

structure Draft where
  tree : Tree := .empty
  failures : List Failure := []

namespace Draft

def errors (draft : Draft) : List ResponseError := draft.failures.map Failure.error

def locate (draft : Draft) (task : FieldTask) (node : NodeId) (error : ResponseError) :
    ResponseError :=
  (error.withPath (draft.tree.path node)).withLocations (task.fields.map Field.position)

def fail (draft : Draft) (task : FieldTask) (node : NodeId) (error : ResponseError) : Draft :=
  { tree := draft.tree.propagateNull node
    failures :=
      draft.failures ++ [⟨draft.locate task node error, node, draft.tree.nullPosition node⟩] }

def set (draft : Draft) (node : NodeId) (content : NodeContent) : Draft :=
  { draft with tree := draft.tree.set node content }

end Draft

abbrev Expanded := Draft × List FieldTask

namespace Request

/-! ## Objects -/

/-- Add the field of one group to an object, with a task unless it is `__typename`. A group without
definition is left out. -/
def addGroup (request : Request) (node : NodeId) (object : NamedType) (parent : FieldValue)
    (expanded : Expanded) (group : FieldGroup) : Expanded :=
  let (draft, tasks) := expanded
  let name := ((group.2.head?).map Field.name).getD ""
  match request.registry.field? object name with
  | none => expanded
  | some definition =>
      let (child, tree) := draft.tree.addField node group.1 definition.type
      if name = "__typename" then
        ({ draft with tree := tree.set child (.leaf (.string object.name)) }, tasks)
      else
        ({ draft with tree := tree },
          tasks ++ [⟨⟨object.name, definition, group.2, parent⟩, child⟩])

def expandObject (request : Request) (node : NodeId) (object : NamedType)
    (sets : List (List Selection)) (parent : FieldValue) (draft : Draft) : Expanded :=
  match request.registry.lookup? object.name with
  | none => (draft, [])
  | some named =>
      (request.collectFields object.name sets).foldl (request.addGroup node named parent)
        ({ draft with tree := draft.tree.makeObject node }, [])

def rootTasks (request : Request) (rootValue : FieldValue) : Expanded :=
  match request.rootType? with
  | none => ({}, [])
  | some object =>
      request.expandObject Tree.rootId object [request.operation.selections] rootValue {}

/-! ## Types at runtime -/

/-- The name of a value's object type: its tag, what the abstract type's resolver says, the first
possible type that takes the value, or the key `__typename` of a JSON object. -/
def runtimeTypeName? (request : Request) (type : NamedType) (value : FieldValue) :
    Option String :=
  let takesValue (name : String) : Bool :=
    (((request.registry.object? name).bind NamedType.object?).bind ObjectShape.isTypeOf).any
      fun isTypeOf => isTypeOf value
  value.typeName?
    <|> type.resolveType?.bind (fun resolveType => resolveType value)
    <|> (request.registry.possible type.name).find? takesValue
    <|> (value.asJson?.bind fun json => json.get? "__typename").bind Json.asString?

def runtimeType (request : Request) (call : FieldCall) (type : NamedType) (value : FieldValue) :
    Except String NamedType :=
  match request.runtimeTypeName? type value with
  | none =>
      .error s!"Abstract type \"{type.name}\" must resolve to an Object type at runtime for field \"{call.coordinate}\". Either the \"{type.name}\" type should provide a \"resolveType\" function or each possible type should provide an \"isTypeOf\" function."
  | some name =>
      match request.registry.object? name with
      | none =>
          .error s!"Abstract type \"{type.name}\" was resolved to a type \"{name}\" that does not exist inside the schema."
      | some object =>
          if request.registry.isPossible type name then .ok object
          else .error s!"Runtime Object type \"{name}\" is not a possible type for \"{type.name}\"."

/-! ## Completing values -/

def leafJson (value : FieldValue) (typeName : String) : Except String Json :=
  match value.asJson? with
  | some json => .ok json
  | none =>
      let found := value.inner.debugText
      .error s!"Leaf type \"{typeName}\" can only serialize JSON values, found {found}."

def serialize (type : NamedType) (shape : TypeShape) (value : FieldValue) : Except String Json := do
  let json ← leafJson value type.name
  match shape with
  | .scalar scalar => scalar.serialize json
  | .enum values =>
      match EnumValueDefinition.serialize? values json with
      | some name => .ok (.string name)
      | none =>
          let found := json.text
          .error s!"Enum \"{type.name}\" cannot represent value: {found}"
  | _ => .ok json

def completionError (message : String) : ResponseError := { message := message, kind := .resolver }

def completeNamed (request : Request) (call : FieldCall) (typeName : String) (node : NodeId)
    (value : FieldValue) (draft : Draft) : Except String Expanded :=
  match request.registry.lookup? typeName with
  | none => .error s!"Unknown type \"{typeName}\"."
  | some type =>
      match type.shape with
      | .inputObject _ =>
          .error s!"Input object \"{type.name}\" cannot be returned by field \"{call.coordinate}\"."
      | .object _ => .ok (request.expandObject node type call.selectionSets value draft)
      | .interface _ => do
          let object ← request.runtimeType call type value
          return request.expandObject node object call.selectionSets value draft
      | .union _ => do
          let object ← request.runtimeType call type value
          return request.expandObject node object call.selectionSets value draft
      | shape => do
          let json ← serialize type shape value
          return (draft.set node (.leaf json), [])

abbrev Completion := NodeId → FieldValue → Draft → Expanded

/-- Complete the items of a list one by one. Once an item has nulled the list, or more, the others
are not looked at. -/
def completeItems (completeItem : Completion) :
    List (NodeId × FieldValue) → Draft → Expanded
  | [], draft => (draft, [])
  | (node, value) :: items, draft =>
      if draft.tree.isDiscarded node then (draft, [])
      else
        let (draft, tasks) := completeItem node value draft
        let (draft, more) := completeItems completeItem items draft
        (draft, tasks ++ more)

def completeList (task : FieldTask) (item : TypeRef) (completeItem : Completion) : Completion :=
  fun node value draft =>
    match value.items? with
    | none =>
        (draft.fail task node (completionError
          s!"Expected Iterable, but did not find one for field \"{task.coordinate}\"."), [])
    | some values =>
        let (nodes, tree) := draft.tree.addItems node item values.length
        completeItems completeItem (nodes.zip values) { draft with tree := tree }

def completeSingle (request : Request) (task : FieldTask) (typeName : String) : Completion :=
  fun node value draft =>
    match request.completeNamed task.toFieldCall typeName node value draft with
    | .ok expanded => expanded
    | .error message => (draft.fail task node (completionError message), [])

def unlessNull (task : FieldTask) (required : Bool) (complete : Completion) : Completion :=
  fun node value draft =>
    if value.isNull then
      if required then
        (draft.fail task node (completionError
          s!"Cannot return null for non-nullable field {task.coordinate}."), [])
      else (draft.set node .null, [])
    else complete node value draft

def completeValue (request : Request) (task : FieldTask) : TypeRef → Completion
  | .list item => unlessNull task false (completeList task item (request.completeValue task item))
  | .nonNull (.list item) =>
      unlessNull task true (completeList task item (request.completeValue task item))
  | .nonNull (.nonNull (.list item)) =>
      unlessNull task true (completeList task item (request.completeValue task item))
  | .nonNull inner => unlessNull task true (request.completeSingle task inner.typeName)
  | type => unlessNull task false (request.completeSingle task type.typeName)

/-! ## Resolving fields -/

def invocation (request : Request) (path : Path) (call : FieldCall) :
    Except CoercionError Invocation := do
  let written := ((call.fields.head?).map Field.arguments).getD []
  let arguments ←
    request.registry.coerceArguments written request.variableValues call.definition.arguments
  return {
    parent := call.parent
    arguments := arguments
    field := call.definition
    nodes := call.fields
    parentType := call.parentType
    path := path
    variableValues := request.variableValues
    token := request.token }

inductive Started (σ : Type) where
  | resolved (resolution : Resolution)
  | suspended (delay : Nat) (wake : World σ → Outcome FieldValue × World σ)

/-- Call the resolver of a field. Without resolver, the field that a subscription is about is the
event itself, and any other field is the property of its name. -/
def start {σ : Type} (request : Request) (application : Application σ) (path : Path)
    (call : FieldCall) (world : World σ) : Started σ × World σ :=
  if call.isMeta then
    (.resolved (.outcome (.value
      (.json (request.introspect call.definition.name call.fields)))), world)
  else
    match request.invocation path call with
    | .error error => (.resolved (.invalidArguments error), world)
    | .ok invocation =>
        match call.definition.resolver with
        | some resolver =>
            match application.resolve resolver invocation world with
            | (.ready outcome, world) => (.resolved (.outcome outcome), world)
            | (.suspended delay wake, world) => (.suspended delay wake, world)
        | none =>
            let value :=
              if call.definition.subscriber.isSome then call.parent
              else call.parent.property call.definition.name
            (.resolved (.outcome (.value value)), world)

def argumentError (error : CoercionError) : ResponseError :=
  { message := error.message, kind := .coercion, code := some badUserInput }

def metaJson (value : FieldValue) : Json := value.asJson?.getD .null

/-- Take in how a field was resolved. A panic that is to end the request gives its reason instead of
a draft. -/
def finish (request : Request) (task : FieldTask) (resolution : Resolution) (draft : Draft) :
    Except (Option String) Expanded :=
  if draft.tree.isDiscarded task.node then .ok (draft, [])
  else
    match resolution with
    | .outcome (.panic reason) =>
        if request.throwOnUnhandled then .error reason
        else .ok (draft.fail task task.node (unhandledError reason), [])
    | .invalidArguments error => .ok (draft.fail task task.node (argumentError error), [])
    | .outcome (.error error) => .ok (draft.fail task task.node error.toResponse, [])
    | .outcome (.value value) =>
        if task.isMeta then .ok (draft.set task.node (.leaf (metaJson value)), [])
        else .ok (request.completeValue task task.definition.type task.node value draft)

end Request

end GraphQL
