import GraphQL.Proofs.Execution.Introspection

/-!
Introspection of accepted requests is faithful: its answers have the types that the fields of
introspection have, and show the registry. What is needed for this besides acceptance is that no
type of the application can be mistaken for a part of introspection.
-/

namespace GraphQL

open MetaObject

private theorem Meta.schemaField_ne_typeField : Meta.schemaField ≠ Meta.typeField := by
  intro equal
  have sameName := congrArg FieldDefinition.name equal
  simp [Meta.schemaField, Meta.typeField] at sameName

private theorem Registry.name_of_field? {registry : Registry} {type : NamedType} {name : String}
    {definition : FieldDefinition} (isField : registry.field? type name = some definition) :
    definition.name = name := by
  rw [field?] at isField
  split at isField
  · rename_i isTypeName
    rw [← Option.some.inj isField, isTypeName.1]
    rfl
  · split at isField
    · rename_i isSchema
      rw [← Option.some.inj isField, isSchema.1]
      rfl
    · split at isField
      · rename_i isType
        rw [← Option.some.inj isField, isType.1]
        rfl
      · rcases Option.bind_eq_some_iff.mp isField with ⟨fields, _, found⟩
        exact (Named.find?_mem found).2

/-- Where no type declares the fields of introspection, they are those of the query type. -/
private theorem Registry.ReservesIntrospection.field?_eq {registry : Registry}
    (reserves : registry.ReservesIntrospection) {type : NamedType} (known : type ∈ registry.types)
    {name : String} (isReserved : name = "__schema" ∨ name = "__type")
    {definition : FieldDefinition} (isField : registry.field? type name = some definition) :
    definition = if name = "__schema" then Meta.schemaField else Meta.typeField := by
  have own := reserves type known name isReserved
  rcases isReserved with rfl | rfl <;> simp [Registry.field?, own] at isField <;>
    simp [isField.2]

namespace Request

variable {request : Request} {schema : Schema} {object : NamedType}

/-- The nodes of a call are selected as the field of introspection that it is about, if no type
declares fields of their names. -/
private theorem Stands.introspects (reserves : request.registry.ReservesIntrospection)
    (yields : schema.Yields request.registry) (accepted : request.subject.Accepted)
    {call : FieldCall} (stands : request.Stands call)
    (isIntrospection : call.definition.IsIntrospection) :
    ∃ object merged, merged ≠ [] ∧ merged.map SelectedField.field = call.fields ∧
      request.Merges object merged ∧
      ∀ selected ∈ merged, selected.definition = some call.definition := by
  rcases stands with ⟨notEmpty, object, merged, registered, _, isMap, merges, defined⟩
  refine ⟨object, merged, ?_, isMap, merges, fun selected member => ?_⟩
  · rintro rfl
    exact notEmpty isMap.symm
  · have own := defined selected member
    have isReserved : selected.field.name = "__schema" ∨ selected.field.name = "__type" := by
      rw [← Registry.name_of_field? own]
      exact isIntrospection.name_eq
    rcases (merges.fits selected member).selected_on accepted yields (merges.has selected member)
      with ⟨parent, definition, known, _, _, isDefined, isField⟩
    have isKnown := (Named.find?_mem (Registry.isObject_of_object? registered).1).1
    rw [isDefined, reserves.field?_eq known isReserved isField,
      reserves.field?_eq isKnown isReserved own]

/-- The object that a field of introspection asks for: the schema, or a type by its name. -/
def Seeks (request : Request) (definition : FieldDefinition) (fields : List Field) :
    MetaObject → Prop
  | .schema => definition = Meta.schemaField
  | .type named => definition = Meta.typeField ∧ ∃ name,
      request.metaArgument? fields "name" = some (.string name) ∧
      request.registry.lookup? name = some named
  | _ => False

/-- What introspection answers to a field: JSON of its type, which shows what is asked for, and is
null if there is no such thing. -/
structure Introspects (request : Request) (definition : FieldDefinition) (fields : List Field)
    (json : Json) : Prop where
  conforms : request.Conforms .none definition.type (fields.map Field.selections) json
  shows : ∀ object, request.Seeks definition fields object → request.Portrays object fields json
  missing : (∀ object, ¬request.Seeks definition fields object) → json = .null

private theorem Seeks.unique {definition : FieldDefinition} {fields : List Field}
    {one other : MetaObject}
    (seeks : request.Seeks definition fields one) (also : request.Seeks definition fields other) :
    one = other := by
  cases one with
  | schema =>
      cases other with
      | schema => rfl
      | type named => exact absurd (seeks.symm.trans also.1) Meta.schemaField_ne_typeField
      | _ => exact also.elim
  | type named =>
      cases other with
      | schema => exact absurd (also.symm.trans seeks.1) Meta.schemaField_ne_typeField
      | type another =>
          rcases seeks with ⟨_, name, isName, found⟩
          rcases also with ⟨_, other, isOther, foundOther⟩
          rw [isName, Option.some.injEq, Json.string.injEq] at isOther
          rw [← isOther, found] at foundOther
          exact congrArg _ (Option.some.inj foundOther)
      | _ => exact also.elim
  | _ => exact seeks.elim

/-- Introspection describes what is asked for. -/
private theorem introspect_cases {definition : FieldDefinition} (fields : List Field)
    (isIntrospection : definition.IsIntrospection) :
    (∃ object, request.Seeks definition fields object ∧ object.Known request.registry ∧
      object.typeName = definition.type.typeName ∧
      request.introspect definition.name fields =
        request.describe request.depth object fields) ∨
    ((∀ object, ¬request.Seeks definition fields object) ∧ definition.type.isNonNull = false ∧
      request.introspect definition.name fields = .null) := by
  rcases isIntrospection with rfl | rfl
  · exact .inl ⟨.schema, rfl, trivial, rfl, rfl⟩
  · have answer : request.introspect Meta.typeField.name fields =
        (((request.metaArgument? fields "name").bind Json.asString?).bind
          (named? request.registry)).elim .null fun object =>
            request.describe request.depth object fields :=
      rfl
    rw [answer]
    cases sought : ((request.metaArgument? fields "name").bind Json.asString?).bind
        (named? request.registry) with
    | some object =>
        rcases Option.bind_eq_some_iff.mp sought with ⟨name, isName, isObject⟩
        rcases Option.bind_eq_some_iff.mp isName with ⟨given, isGiven, isText⟩
        rcases Option.map_eq_some_iff.mp isObject with ⟨named, found, rfl⟩
        cases given with
        | string text =>
            cases isText
            exact .inl ⟨.type named, ⟨rfl, _, isGiven, found⟩, (Named.find?_mem found).1, rfl,
              rfl⟩
        | _ => cases isText
    | none =>
        refine .inr ⟨fun object seeks => ?_, rfl, rfl⟩
        cases object with
        | schema => exact Meta.schemaField_ne_typeField seeks.symm
        | type named =>
            rcases seeks with ⟨_, name, isName, found⟩
            rw [isName, Option.bind_some, Json.asString?, Option.bind_some, named?, found] at sought
            cases sought
        | _ => exact seeks

namespace Describable

/-- Nodes that are a field of introspection where they are written, and that merge, are answered by
introspection. -/
private theorem introspects (describable : request.Describable schema)
    (operation : request.operation ∈ request.document.operations)
    (deep : request.document.selectionCount ≤ request.depth) {merged : List SelectedField}
    (merges : request.Merges object merged) (notEmpty : merged ≠ [])
    {definition : FieldDefinition} (isIntrospection : definition.IsIntrospection)
    (defined : ∀ selected ∈ merged, selected.definition = some definition) :
    request.Introspects definition (merged.map SelectedField.field)
      (request.introspect definition.name (merged.map SelectedField.field)) := by
  have shallow := ((merges.nesting_lt describable.acyclic notEmpty).trans_le
    (describable.acyclic.nesting_le_selectionCount operation)).trans_le deep
  rcases introspect_cases (merged.map SelectedField.field) isIntrospection with
    ⟨inner, seeks, known, sameName, answer⟩ | ⟨none, mayBeNull, answer⟩
  · have reflects := describable.reflects_under (describable.reaches _) merges defined shallow known
      sameName
    have isSingle : definition.type.nullable.listItem? = none := by
      rcases isIntrospection with rfl | rfl <;> rfl
    rw [answer]
    exact ⟨reflects.conforms _ isSingle sameName.symm,
      fun object also => seeks.unique also ▸ reflects.portrays,
      fun none => absurd seeks (none inner)⟩
  · rw [answer]
    exact ⟨.null mayBeNull, fun object seeks => absurd seeks (none object), fun _ => rfl⟩

end Describable

/-- A request for a registry that was built, with a document that the default plan accepts. -/
structure Admitted (request : Request) (schema : Schema) : Prop where
  built : schema.build = .ok request.registry
  addressed : request.document.Addressed
  silent : request.document.validate request.registry defaultPlan = []
  operation : request.operation ∈ request.document.operations
  deep : request.document.selectionCount ≤ request.depth

private theorem Admitted.describable (admitted : request.Admitted schema)
    (apart : ∀ type ∈ Meta.all, type.name ≠ request.registry.query.name) :
    request.Describable schema where
  yields := Schema.build_yields admitted.built
  closed := Schema.build_closed admitted.built
  accepted := Subject.accepted_of_silent (Schema.build_yields admitted.built)
    admitted.addressed.distinct admitted.silent
  acyclic := Document.acyclic_of_silent
    (silent_of_defaultPlan admitted.silent (by simp [defaultPlan]))
    (silent_of_defaultPlan admitted.silent (by simp [defaultPlan]))
  apart := apart

/-- Introspection of an accepted request is faithful and well typed, if the query type is none of
the types that it shows things with. Nodes that are the same field of introspection where they are
written, and any two of which can be merged, are answered with JSON that has the type of the field
and shows what is asked for. All nodes that an execution answers together are such nodes, if no type
declares fields of their names and objects have the fields of their interfaces with types that can
stand for theirs. -/
theorem introspection_faithful (admitted : request.Admitted schema)
    (apart : ∀ type ∈ Meta.all, type.name ≠ request.registry.query.name) :
    (∀ object merged definition, request.Merges object merged → merged ≠ [] →
      definition.IsIntrospection →
      (∀ selected ∈ merged, selected.definition = some definition) →
      request.Introspects definition (merged.map SelectedField.field)
        (request.introspect definition.name (merged.map SelectedField.field))) ∧
    (request.registry.FieldsNarrow → request.registry.ReservesIntrospection →
      ∀ rootValue outstanding, request.Runs anyAnswer (request.initial rootValue) outstanding →
        ∀ task ∈ outstanding.2, task.definition.IsIntrospection →
          request.Introspects task.definition task.fields
            (request.introspect task.definition.name task.fields)) := by
  have describable := admitted.describable apart
  constructor
  · intro object merged definition merges notEmpty isIntrospection defined
    exact describable.introspects admitted.operation admitted.deep merges notEmpty isIntrospection
      defined
  · intro narrow reserves rootValue outstanding runs task member isIntrospection
    have checked := checked_of_silent admitted.built narrow admitted.addressed.distinct
      admitted.silent admitted.operation
    have stands : request.Stands task.toFieldCall :=
      Steps.stands checked (runs.steps (request.initial_valid rootValue)) (.resolve task)
        (Multiset.mem_map_of_mem _ member)
    rcases stands.introspects reserves checked.yields checked.accepted isIntrospection with
      ⟨object, merged, notEmpty, isMap, merges, defined⟩
    rw [← isMap]
    exact describable.introspects admitted.operation admitted.deep merges notEmpty isIntrospection
      defined

end Request

namespace Herbarium

/-! A type whose fields are looked up. -/

def fern : NamedType where
  key := .custom 0
  name := "Fern"
  shape := .object
    { fields :=
        [{ name := "name", type := .nonNull (.named "String") },
          { name := "fronds", type := .list (.named "Int"), deprecation := some "Grown." }] }

def query : NamedType where
  key := .custom 1
  name := "Query"
  shape := .object { fields := [{ name := "fern", type := .named "Fern" }] }

def schema : Schema where
  pool := [fern, query]
  query := query.toInstance
  types := [fern.toInstance]

def registry : Registry where
  types := Scalar.all ++ Meta.all ++ [query, fern]
  query := query
  mutation := none
  subscription := none
  directives := DirectiveDefinition.builtIn
  possibleTypes := []

def inside : Selection :=
  .field ⟨⟨1, 57⟩, none, "ofType", [], [],
    [.field ⟨⟨1, 66⟩, none, "kind", [], [], []⟩, .field ⟨⟨1, 71⟩, none, "name", [], [], []⟩]⟩

def selected : Field :=
  ⟨⟨1, 3⟩, none, "__type", [("name", .string "Fern")], [],
    [.field ⟨⟨1, 26⟩, none, "fields", [], [],
      [.field ⟨⟨1, 35⟩, none, "name", [], [], []⟩,
        .field ⟨⟨1, 40⟩, none, "type", [], [],
          [.field ⟨⟨1, 47⟩, none, "kind", [], [], []⟩,
            .field ⟨⟨1, 52⟩, none, "name", [], [], []⟩, inside]⟩]⟩]⟩

def operation : Operation := ⟨⟨1, 1⟩, .query, none, [], [], [.field selected]⟩

def request : Request where
  registry := registry
  document := ⟨[.operation operation]⟩
  operation := operation
  variableValues := []
  token := ⟨0, none⟩
  depth := 10

def task : FieldTask := ⟨⟨"Query", Meta.typeField, [selected], .null⟩, 1⟩

def json : Json :=
  .object [("fields", .array [.object [("name", .string "name"),
    ("type", .object [("kind", .string "NON_NULL"), ("name", .null),
      ("ofType", .object [("kind", .string "SCALAR"), ("name", .string "String")])])]])]

private theorem admitted : request.Admitted schema where
  built := by cbv
  addressed := .inr (by decide)
  silent := (validate_eq_walk _ _ _).trans rfl
  operation := List.mem_singleton_self _
  deep := by decide

private theorem reserves : request.registry.ReservesIntrospection := by
  have both : ∀ type ∈ request.registry.types,
      type.field? "__schema" = none ∧ type.field? "__type" = none := by
    decide
  rintro type known name (rfl | rfl)
  · exact (both type known).1
  · exact (both type known).2

end Herbarium

/-- A type of which only a deprecated field is missing. -/
theorem Request.introspection_faithful_of_herbarium :
    Herbarium.request.Admitted Herbarium.schema ∧
      (∀ type ∈ Meta.all, type.name ≠ Herbarium.request.registry.query.name) ∧
      Herbarium.request.registry.FieldsNarrow ∧
      Herbarium.request.registry.ReservesIntrospection ∧
      Herbarium.task ∈ (Herbarium.request.initial .null).2 ∧
      Herbarium.request.introspect "__type" Herbarium.task.fields = Herbarium.json ∧
      Herbarium.request.Introspects Meta.typeField Herbarium.task.fields Herbarium.json ∧
      ∃ merged, Herbarium.request.Merges Herbarium.query merged ∧
        merged.map SelectedField.field = [Herbarium.selected] ∧
        Herbarium.request.Introspects Meta.typeField (merged.map SelectedField.field)
          Herbarium.json := by
  have apart : ∀ type ∈ Meta.all, type.name ≠ Herbarium.request.registry.query.name := by decide
  have narrow : Herbarium.request.registry.FieldsNarrow := by decide
  have member : Herbarium.task ∈ (Herbarium.request.initial .null).2 := List.mem_singleton_self _
  have answer : Herbarium.request.introspect "__type" Herbarium.task.fields = Herbarium.json := rfl
  have operation := Herbarium.admitted.operation
  have faithful := Request.introspection_faithful Herbarium.admitted apart
  have together := faithful.2 narrow Herbarium.reserves .null _ .refl Herbarium.task member
    (.inr rfl)
  have merges : Herbarium.request.Merges Herbarium.query
      [⟨some Herbarium.query, Herbarium.selected, some Meta.typeField⟩] :=
    .singleton
      ⟨_, _, _, Herbarium.selected, .operation operation, List.mem_singleton_self _, rfl⟩ .self
      ⟨_, _, _, Herbarium.selected, .operation operation, List.mem_singleton_self _, rfl⟩
      ⟨Herbarium.query, rfl, .inl ⟨rfl, rfl⟩⟩
  have alone := faithful.1 Herbarium.query _ Meta.typeField merges (List.cons_ne_nil _ _)
    (.inr rfl) (by simp)
  exact ⟨Herbarium.admitted, apart, narrow, Herbarium.reserves, member, answer, answer ▸ together,
    _, merges, rfl, answer ▸ alone⟩

namespace Request

/-- The entries of an object that conforms to an object type. -/
private theorem Conforms.entries {request : Request} {type : TypeRef} {sets : List (List Selection)}
    {entries : List (String × Json)} {named : NamedType}
    (conforms : request.Conforms .none type sets (.object entries))
    (isSingle : type.nullable.listItem? = none)
    (registered : request.registry.lookup? type.typeName = some named)
    (isObject : named.isObject = true) :
    request.ConformsFields .none named.name (request.slots named sets) entries := by
  have isComposite : named.isComposite = true := by simp [NamedType.isComposite, isObject]
  rcases conforms.composite isSingle registered isComposite with isNull |
      ⟨object, _, isEntries, runsAs, fields⟩
  · cases isNull
  · cases isEntries
    exact runsAs.eq_of_isObject isObject ▸ fields

/-- The first entry conforms to the first field, and the others to the others. -/
private theorem ConformsFields.head {request : Request} {objectName : String} {slot : Slot}
    {slots : List Slot} {entry : String × Json} {entries : List (String × Json)}
    (fields : request.ConformsFields .none objectName (slot :: slots) (entry :: entries)) :
    request.ConformsFields .none objectName slots entries ∧
      (slot.isTypeName = true ∨
        slot.definition.IsIntrospection ∧
          (slot.definition.type.isNonNull = true → entry.2.isNull = false) ∨
        request.Conforms .none slot.definition.type (slot.fields.map Field.selections)
          entry.2) := by
  cases fields with
  | typeName isTypeName rest => exact ⟨rest, .inl isTypeName⟩
  | described isIntrospection given rest => exact ⟨rest, .inr (.inl ⟨isIntrospection, given⟩)⟩
  | excused isExcused => exact isExcused.elim
  | checked conforms rest => exact ⟨rest, .inr (.inr conforms)⟩

/-- In some execution the schema is shown as JSON that is not of its type. -/
def Misrepresents (request : Request) (json : Json) : Prop :=
  ∃ rootValue outstanding, request.Runs anyAnswer (request.initial rootValue) outstanding ∧
    ∃ task ∈ outstanding.2, task.definition = Meta.schemaField ∧
      request.introspect "__schema" task.fields = json ∧
      ¬request.Conforms .none Meta.schemaField.type (task.fields.map Field.selections) json

end Request

namespace Noticeboard

/-! An interface of the query type that has a field of the name of one of introspection. -/

def note : NamedType where
  key := .custom 0
  name := "Note"
  shape := .object { fields := [{ name := "name", type := .named "String" }] }

def board : NamedType where
  key := .custom 1
  name := "Board"
  shape := .object { fields := [{ name := "title", type := .nonNull (.named "Note") }] }

def own : FieldDefinition := { name := "__schema", type := .nonNull (.named "Board") }

def described : NamedType where
  key := .custom 2
  name := "Described"
  shape := .interface { fields := [own] }

def query : NamedType where
  key := .custom 3
  name := "Query"
  shape := .object { interfaces := [.named "Described"], fields := [own] }

def schema : Schema where
  pool := [note, board, described, query]
  query := query.toInstance
  types := [note.toInstance, board.toInstance, described.toInstance]

def registry : Registry where
  types := Scalar.all ++ Meta.all ++ [query, note, board, described]
  query := query
  mutation := none
  subscription := none
  directives := DirectiveDefinition.builtIn
  possibleTypes := [("Described", ["Query"])]

def title : Field :=
  ⟨⟨1, 33⟩, some "a", "title", [], [], [.field ⟨⟨1, 44⟩, none, "name", [], [], []⟩]⟩

def queryType : Field :=
  ⟨⟨1, 66⟩, some "a", "queryType", [], [], [.field ⟨⟨1, 81⟩, none, "name", [], [], []⟩]⟩

def first : Field := ⟨⟨1, 22⟩, none, "__schema", [], [], [.field title]⟩

def second : Field := ⟨⟨1, 55⟩, none, "__schema", [], [], [.field queryType]⟩

def operation : Operation :=
  ⟨⟨1, 1⟩, .query, none, [], [], [.inline ⟨⟨1, 3⟩, some "Described", [], [.field first]⟩,
    .field second]⟩

def request : Request where
  registry := registry
  document := ⟨[.operation operation]⟩
  operation := operation
  variableValues := []
  token := ⟨0, none⟩
  depth := 10

private def task : FieldTask := ⟨⟨"Query", Meta.schemaField, [first, second], .null⟩, 1⟩

def json : Json := .object [("a", .null)]

private theorem admitted : request.Admitted schema where
  built := by cbv
  addressed := .inr (by decide)
  silent := (validate_eq_walk _ _ _).trans rfl
  operation := List.mem_singleton_self _
  deep := by decide

private theorem misrepresents : request.Misrepresents json := by
  refine ⟨.null, _, .refl, task, List.mem_singleton_self _, rfl, by cbv, fun conforms => ?_⟩
  have registered : request.registry.lookup? Meta.schemaField.type.typeName =
      some Meta.schemaType := by
    cbv
  have fields := conforms.entries rfl registered rfl
  have noSlots : request.slots Meta.schemaType (task.fields.map Field.selections) = [] := by cbv
  rw [noSlots] at fields
  cases fields

end Noticeboard

namespace Mirror

/-! A schema that is queried for one of the types of introspection. -/

def schema : Schema where
  pool := []
  query := Meta.typeType.toInstance

def registry : Registry where
  types := Scalar.all ++ Meta.all
  query := Meta.typeType
  mutation := none
  subscription := none
  directives := DirectiveDefinition.builtIn
  possibleTypes := []

def again : Field :=
  ⟨⟨1, 26⟩, none, "__schema", [], [],
    [.field ⟨⟨1, 37⟩, none, "queryType", [], [], [.field ⟨⟨1, 49⟩, none, "name", [], [], []⟩]⟩]⟩

def queryType : Field := ⟨⟨1, 14⟩, none, "queryType", [], [], [.field again]⟩

def selected : Field := ⟨⟨1, 3⟩, none, "__schema", [], [], [.field queryType]⟩

def operation : Operation := ⟨⟨1, 1⟩, .query, none, [], [], [.field selected]⟩

def request : Request where
  registry := registry
  document := ⟨[.operation operation]⟩
  operation := operation
  variableValues := []
  token := ⟨0, none⟩
  depth := 10

private def task : FieldTask := ⟨⟨"__Type", Meta.schemaField, [selected], .null⟩, 1⟩

def json : Json := .object [("queryType", .object [("__schema", .null)])]

private theorem admitted : request.Admitted schema where
  built := by cbv
  addressed := .inr (by decide)
  silent := (validate_eq_walk _ _ _).trans rfl
  operation := List.mem_singleton_self _
  deep := by decide

private theorem type_not_conforms :
    ¬request.Conforms .none (Meta.required "__Type") [[.field again]]
      (.object [("__schema", .null)]) := by
  intro conforms
  have registered : request.registry.lookup? "__Type" = some Meta.typeType := by cbv
  have fields := conforms.entries rfl registered rfl
  have slots : request.slots Meta.typeType [[.field again]] =
      [⟨"__schema", Meta.schemaField, [again]⟩] := by
    cbv
  rw [slots] at fields
  rcases fields.head.2 with isTypeName | ⟨_, given⟩ | conforms
  · cases isTypeName
  · cases given rfl
  · cases conforms.nonNull rfl

private theorem misrepresents : request.Misrepresents json := by
  refine ⟨.null, _, .refl, task, List.mem_singleton_self _, rfl, by cbv, fun conforms => ?_⟩
  have registered : request.registry.lookup? "__Schema" = some Meta.schemaType := by cbv
  have fields := conforms.entries rfl registered rfl
  have slots : request.slots Meta.schemaType (task.fields.map Field.selections) =
      [⟨"queryType", Meta.field "queryType" (Meta.required "__Type") [], [queryType]⟩] := by
    cbv
  rw [slots] at fields
  rcases fields.head.2 with isTypeName | ⟨isIntrospection, _⟩ | conforms
  · cases isTypeName
  · exact absurd isIntrospection.name_eq (by decide)
  · exact type_not_conforms conforms

end Mirror

namespace Lobby

/-! A query type that has a field of its interface with a type of its own. -/

def note : NamedType where
  key := .custom 0
  name := "Note"
  shape := .object
    { fields :=
        [{ name := "text", type := .named "String" },
          { name := "next", type := .nonNull (.named "Note") }] }

def top : NamedType where
  key := .custom 1
  name := "Top"
  shape := .interface { fields := [{ name := "self", type := .nonNull (.named "Note") }] }

def query : NamedType where
  key := .custom 2
  name := "Query"
  shape := .object
    { interfaces := [.named "Top"]
      fields := [{ name := "self", type := .nonNull (.named "Query") }] }

def schema : Schema where
  pool := [note, top, query]
  query := query.toInstance
  types := [note.toInstance, top.toInstance]

def registry : Registry where
  types := Scalar.all ++ Meta.all ++ [query, note, top]
  query := query
  mutation := none
  subscription := none
  directives := DirectiveDefinition.builtIn
  possibleTypes := [("Top", ["Query"])]

def queryType : Field :=
  ⟨⟨1, 24⟩, some "b", "queryType", [], [], [.field ⟨⟨1, 39⟩, none, "name", [], [], []⟩]⟩

def after : Field :=
  ⟨⟨1, 80⟩, some "b", "next", [], [], [.field ⟨⟨1, 90⟩, none, "text", [], [], []⟩]⟩

def shown : Field := ⟨⟨1, 10⟩, some "a", "__schema", [], [], [.field queryType]⟩

def next : Field := ⟨⟨1, 70⟩, some "a", "next", [], [], [.field after]⟩

def first : Field := ⟨⟨1, 3⟩, none, "self", [], [], [.field shown]⟩

def second : Field := ⟨⟨1, 63⟩, none, "self", [], [], [.field next]⟩

def operation : Operation :=
  ⟨⟨1, 1⟩, .query, none, [], [], [.field first, .inline ⟨⟨1, 50⟩, some "Top", [], [.field second]⟩]⟩

def request : Request where
  registry := registry
  document := ⟨[.operation operation]⟩
  operation := operation
  variableValues := []
  token := ⟨0, none⟩
  depth := 10

private def self : FieldTask :=
  ⟨⟨"Query", { name := "self", type := .nonNull (.named "Query") }, [first, second], .null⟩, 1⟩

def value : FieldValue := .json (.object [])

private def task : FieldTask := ⟨⟨"Query", Meta.schemaField, [shown, next], value⟩, 2⟩

def json : Json := .object [("b", .object [("name", .string "Query"), ("text", .null)])]

private theorem admitted : request.Admitted schema where
  built := by cbv
  addressed := .inr (by decide)
  silent := (validate_eq_walk _ _ _).trans rfl
  operation := List.mem_singleton_self _
  deep := by decide

private theorem runs :
    ∃ outstanding, request.Runs Request.anyAnswer (request.initial .null) outstanding ∧
    task ∈ outstanding.2 := by
  have finished : ∃ later, request.finish self (.outcome (.value value))
      (request.rootTasks .null).1 = .ok (later, [task]) := ⟨_, rfl⟩
  rcases finished with ⟨later, finished⟩
  have finishes : request.Finishes Request.anyAnswer
      ((request.rootTasks .null).1, self ::ₘ 0) (later, ([task] : Multiset FieldTask) + 0) :=
    .finish trivial finished
  exact ⟨_, .single finishes, List.mem_singleton_self _⟩

private theorem type_not_conforms :
    ¬request.Conforms .none (Meta.required "__Type") [queryType.selections, after.selections]
      (.object [("name", .string "Query"), ("text", .null)]) := by
  intro conforms
  have registered : request.registry.lookup? "__Type" = some Meta.typeType := by cbv
  have fields := conforms.entries rfl registered rfl
  have slots : request.slots Meta.typeType [queryType.selections, after.selections] =
      [⟨"name", Meta.field "name" (.named "String") [],
        [⟨⟨1, 39⟩, none, "name", [], [], []⟩]⟩] := by
    cbv
  rw [slots] at fields
  cases fields.head.1

private theorem misrepresents : request.Misrepresents json := by
  rcases runs with ⟨outstanding, runs, member⟩
  refine ⟨.null, outstanding, runs, task, member, rfl, by cbv, fun conforms => ?_⟩
  have registered : request.registry.lookup? "__Schema" = some Meta.schemaType := by cbv
  have fields := conforms.entries rfl registered rfl
  have slots : request.slots Meta.schemaType (task.fields.map Field.selections) =
      [⟨"b", Meta.field "queryType" (Meta.required "__Type") [], [queryType, after]⟩] := by
    cbv
  rw [slots] at fields
  rcases fields.head.2 with isTypeName | ⟨isIntrospection, _⟩ | conforms
  · cases isTypeName
  · exact absurd isIntrospection.name_eq (by decide)
  · exact type_not_conforms conforms

end Lobby

/-- Without the conditions accepted requests are not answered faithfully: if an interface of the
query type declares a field of introspection, if the query type is a type of introspection, or if it
has a field of an interface with a type that cannot stand for the one there. -/
theorem Request.introspection_not_faithful :
    (Noticeboard.request.Admitted Noticeboard.schema ∧
      Noticeboard.request.Misrepresents Noticeboard.json) ∧
    (Mirror.request.Admitted Mirror.schema ∧ Mirror.request.Misrepresents Mirror.json) ∧
    Lobby.request.Admitted Lobby.schema ∧ Lobby.request.Misrepresents Lobby.json :=
  ⟨⟨Noticeboard.admitted, Noticeboard.misrepresents⟩, ⟨Mirror.admitted, Mirror.misrepresents⟩,
    Lobby.admitted, Lobby.misrepresents⟩

end GraphQL
