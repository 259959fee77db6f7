import GraphQL.Proofs.Execution.Expansion
import GraphQL.Proofs.Execution.MetaFields
import GraphQL.Proofs.Validation.Cycles

/-!
Introspection answers with a portrait of the registry: every object that is reached shows all that
is selected of it, nothing is null unless there is nothing to show, lists are those of the registry,
and a type can be spelled as the reference to it. The portrait conforms to the meta types, though it
is written without completing values.
-/

namespace GraphQL

open MetaObject

namespace Request

variable {request : Request} {schema : Schema} {object : MetaObject} {name : String}

/-! ## Types by their text -/

/-- A group that selects a field of a type. -/
def SelectsOn (request : Request) (fields : List Field) (name : String) (group : FieldGroup) :
    Prop :=
  group ∈ request.collectFields "__Type" (fields.map Field.selections) ∧
    ∃ field ∈ group.2, field.name = name

/-- What is read of a type in a field, with the nodes that select it. -/
def Reads (request : Request) (fields : List Field) (json : Json) (name : String)
    (under : List Field) (value : Json) : Prop :=
  ∃ key entries, request.SelectsOn fields name (key, under) ∧ json = .object entries ∧
    Named.value? entries key = some value

/-- The text of a type, as it is read from its kind, its name and the type inside of it. -/
inductive Spells (request : Request) : List Field → Json → String → Prop
  | named {fields under others : List Field} {json : Json} {kind name : String}
      (isKind : request.Reads fields json "kind" under (.string kind))
      (notList : kind ≠ TypeKind.list.text) (notNonNull : kind ≠ TypeKind.nonNull.text)
      (isName : request.Reads fields json "name" others (.string name)) :
      Spells request fields json name
  | list {fields under others : List Field} {json item : Json} {text : String}
      (isKind : request.Reads fields json "kind" under (.string TypeKind.list.text))
      (inside : request.Reads fields json "ofType" others item)
      (spelled : Spells request others item text) :
      Spells request fields json ("[" ++ text ++ "]")
  | nonNull {fields under others : List Field} {json inner : Json} {text : String}
      (isKind : request.Reads fields json "kind" under (.string TypeKind.nonNull.text))
      (inside : request.Reads fields json "ofType" others inner)
      (spelled : Spells request others inner text) :
      Spells request fields json (text ++ "!")

/-- The nodes select the kind and the name of a type. -/
def Identifies (request : Request) (fields : List Field) : Prop :=
  (∃ group, request.SelectsOn fields "kind" group) ∧
    ∃ group, request.SelectsOn fields "name" group

/-- The nodes select the kinds and the names of so many types inside one another. -/
def Probes (request : Request) : (depth : Nat) → List Field → Prop
  | 0, fields => request.Identifies fields
  | depth + 1, fields => request.Identifies fields ∧
      ∃ group, request.SelectsOn fields "ofType" group ∧ request.Probes depth group.2

private theorem Probes.identifies {depth : Nat} {fields : List Field}
    (probes : request.Probes depth fields) : request.Identifies fields := by
  cases depth with
  | zero => exact probes
  | succ depth =>
      rw [Probes] at probes
      exact probes.1

/-- The text that is read of a type that is referred to is that of the reference, and with enough of
it selected it can be read. -/
structure Spelled (request : Request) (reference : TypeRef) (fields : List Field) (json : Json) :
    Prop where
  only : ∀ text, request.Spells fields json text → text = reference.text
  all : ∀ depth, reference.wrappers ≤ depth → request.Probes depth fields →
    request.Spells fields json reference.text

/-! ## Portraits -/

mutual

/-- JSON that shows an object of introspection as far as fields select it: one entry for every
response name, with what the object has to show there. -/
inductive Portrays (request : Request) : MetaObject → List Field → Json → Prop
  | object {object : MetaObject} {fields : List Field} {entries : List (String × Json)}
      (names : Named.names entries =
        Named.names (request.collectFields object.typeName (fields.map Field.selections)))
      (shown : ∀ group ∈ request.collectFields object.typeName (fields.map Field.selections),
        ∀ field ∈ group.2, ∀ value, Named.value? entries group.1 = some value →
          Shows request object field.name group.2 value) :
      Portrays request object fields (.object entries)

/-- What an object shows in a field that is selected by some nodes. It is null only if there is
nothing to show. -/
inductive Shows (request : Request) : MetaObject → String → List Field → Json → Prop
  | typeName {object : MetaObject} {name : String} {fields : List Field}
      (isTypeName : name = "__typename") :
      Shows request object name fields (.string object.typeName)
  | leaf {object : MetaObject} {name : String} {fields : List Field} {value : Json}
      (tells : object.Tells request.registry name value) : Shows request object name fields value
  | object {object inner : MetaObject} {name : String} {fields : List Field} {json : Json}
      (leads : object.LeadsTo request.registry name inner)
      (portrays : Portrays request inner fields json)
      (spelled : ∀ reference, Means request.registry reference inner →
        request.Spelled reference fields json) : Shows request object name fields json
  | list {object : MetaObject} {members : List MetaObject} {name : String} {fields : List Field}
      {items : List Json}
      (lists : object.Enumerates request.registry (request.includesDeprecated fields) name members)
      (sameLength : items.length = members.length)
      (portrays : ∀ (index : Nat) (member : MetaObject) (item : Json),
        members[index]? = some member → items[index]? = some item →
          Portrays request member fields item) :
      Shows request object name fields (.array items)
  | null {object : MetaObject} {name : String} {fields : List Field}
      (lacks : object.Lacks request.registry name) (notTypeName : name ≠ "__typename") :
      Shows request object name fields .null

end

section

private theorem Portrays.read {fields under : List Field} {json value : Json}
    (portrays : request.Portrays object fields json) (isType : object.typeName = "__Type")
    (read : request.Reads fields json name under value) :
    request.Shows object name under value := by
  rcases read with ⟨key, entries, ⟨collected, field, inGroup, isName⟩, rfl, isValue⟩
  cases portrays with
  | object names shown =>
      rw [← isType] at collected
      exact isName ▸ shown _ collected field inGroup value isValue

private theorem Portrays.reads {fields : List Field} {json : Json}
    (portrays : request.Portrays object fields json) (isType : object.typeName = "__Type")
    {group : FieldGroup} (selects : request.SelectsOn fields name group) :
    ∃ value, request.Reads fields json name group.2 value := by
  cases portrays with
  | @object _ _ entries names shown =>
      cases isValue : Named.value? entries group.1 with
      | some value => exact ⟨value, group.1, entries, selects, rfl, isValue⟩
      | none =>
          have missing := Named.value?_eq_none.mp isValue
          rw [names, isType] at missing
          exact absurd (List.mem_map_of_mem selects.1) missing

/-- In a field that leads nowhere an object shows what it tells. -/
private theorem Shows.tells {fields : List Field} {value other : Json}
    (shows : request.Shows object name fields value) (notTypeName : name ≠ "__typename")
    (noObject : ∀ inner, ¬object.LeadsTo request.registry name inner)
    (noList : ∀ withDeprecated members,
      ¬object.Enumerates request.registry withDeprecated name members)
    (tells : object.Tells request.registry name other) :
    object.Tells request.registry name value := by
  cases shows with
  | typeName isTypeName => exact absurd isTypeName notTypeName
  | leaf tells => exact tells
  | object leads => exact absurd leads (noObject _)
  | list lists => exact absurd lists (noList _ _)
  | null lacks => exact absurd tells (lacks.tells _)

/-- In a field that leads to an object, an object is shown. -/
private theorem Shows.leads {fields : List Field} {value : Json} {inner : MetaObject}
    (shows : request.Shows object name fields value) (notTypeName : name ≠ "__typename")
    (noLeaf : ∀ value, ¬object.Tells request.registry name value)
    (noList : ∀ withDeprecated members,
      ¬object.Enumerates request.registry withDeprecated name members)
    (leads : object.LeadsTo request.registry name inner) :
    ∃ inner, object.LeadsTo request.registry name inner ∧ request.Portrays inner fields value := by
  cases shows with
  | typeName isTypeName => exact absurd isTypeName notTypeName
  | leaf tells => exact absurd tells (noLeaf _)
  | object leads portrays spelled => exact ⟨_, leads, portrays⟩
  | list lists => exact absurd lists (noList _ _)
  | null lacks => exact absurd leads (lacks.leads _)

section

variable {fields under : List Field} {json value : Json}

private theorem Portrays.kind (portrays : request.Portrays object fields json)
    (isType : object.typeName = "__Type") {kind : TypeKind} (isKind : object.kind? = some kind)
    (read : request.Reads fields json "kind" under value) : value = .string kind.text := by
  rcases (portrays.read isType read).tells (by decide) (fun _ => id) (fun _ _ => id)
    ⟨kind, isKind, rfl⟩ with ⟨other, isOther, equal⟩
  rw [isKind] at isOther
  exact Option.some.inj isOther ▸ equal

private theorem Portrays.ownName (portrays : request.Portrays object fields json)
    (isType : object.typeName = "__Type") {own : String} (isName : object.name? = some own)
    (read : request.Reads fields json "name" under value) : value = .string own := by
  rcases (portrays.read isType read).tells (by decide) (fun _ => id) (fun _ _ => id)
    ⟨own, isName, rfl⟩ with ⟨other, isOther, equal⟩
  rw [isName] at isOther
  exact Option.some.inj isOther ▸ equal

private theorem Portrays.inside (portrays : request.Portrays object fields json)
    (isType : object.typeName = "__Type") {reference : TypeRef}
    (isWrapped : object.wrapped? = some reference) {target : MetaObject}
    (means : Means request.registry reference target)
    (read : request.Reads fields json "ofType" under value) :
    ∃ inner, Means request.registry reference inner ∧ request.Portrays inner under value := by
  have leads : object.LeadsTo request.registry "ofType" target := ⟨reference, isWrapped, means⟩
  rcases (portrays.read isType read).leads (by decide) (fun _ => id) (fun _ _ => id) leads with
    ⟨inner, ⟨other, isOther, isInner⟩, shown⟩
  rw [isWrapped] at isOther
  exact ⟨inner, Option.some.inj isOther ▸ isInner, shown⟩

end

private theorem Portrays.spelled_named {named : NamedType} {reference : TypeRef}
    {fields : List Field} {json : Json} (portrays : request.Portrays (.type named) fields json)
    (isText : named.name = reference.text) : request.Spelled reference fields json := by
  have notWrapper : named.kind.text ≠ TypeKind.list.text ∧
      named.kind.text ≠ TypeKind.nonNull.text := by
    rw [NamedType.kind]
    split <;> decide
  refine ⟨fun text spells => ?_, fun depth _ probes => ?_⟩
  · cases spells with
    | named _ _ _ isName => exact (Json.string.inj (portrays.ownName rfl rfl isName)).trans isText
    | list isKind =>
        exact absurd (Json.string.inj (portrays.kind rfl rfl isKind)) notWrapper.1.symm
    | nonNull isKind =>
        exact absurd (Json.string.inj (portrays.kind rfl rfl isKind)) notWrapper.2.symm
  · rcases probes.identifies with ⟨⟨kinds, selectsKind⟩, names, selectsName⟩
    rcases portrays.reads rfl selectsKind with ⟨kind, isKind⟩
    rcases portrays.reads rfl selectsName with ⟨name, isName⟩
    rw [portrays.kind rfl rfl isKind] at isKind
    rw [portrays.ownName rfl rfl isName, isText] at isName
    exact .named isKind notWrapper.1 notWrapper.2 isName

/-- What is read of a wrapper and of the type inside of it. -/
private theorem Portrays.probed {fields : List Field} {json : Json} {depth : Nat} {kind : TypeKind}
    {inner : TypeRef} {target : MetaObject} (portrays : request.Portrays object fields json)
    (isType : object.typeName = "__Type") (isKind : object.kind? = some kind)
    (isWrapped : object.wrapped? = some inner) (means : Means request.registry inner target)
    (probes : request.Probes (depth + 1) fields) :
    (∃ under, request.Reads fields json "kind" under (.string kind.text)) ∧
      ∃ object under value, Means request.registry inner object ∧
        request.Reads fields json "ofType" under value ∧ request.Portrays object under value ∧
        request.Probes depth under := by
  rw [Probes] at probes
  rcases probes with ⟨⟨⟨kinds, selectsKind⟩, _⟩, others, selectsInside, further⟩
  rcases portrays.reads isType selectsKind with ⟨value, isRead⟩
  rcases portrays.reads isType selectsInside with ⟨inside, isInside⟩
  rw [portrays.kind isType isKind isRead] at isRead
  rcases portrays.inside isType isWrapped means isInside with ⟨object, isObject, shown⟩
  exact ⟨⟨_, isRead⟩, object, _, inside, isObject, isInside, shown, further⟩

/-- A wrapper is spelled around what is spelled inside of it. -/
private theorem Portrays.spelled_wrapper {fields : List Field} {json : Json} {kind : TypeKind}
    {inner : TypeRef} (wrap : String → String) (portrays : request.Portrays object fields json)
    (isType : object.typeName = "__Type") (isKind : object.kind? = some kind)
    (isWrapped : object.wrapped? = some inner) (resolvable : request.registry.Resolvable inner)
    (spelled : ∀ {object : MetaObject} {under : List Field} {value : Json},
      Means request.registry inner object → request.Portrays object under value →
      request.Spelled inner under value)
    (splits : ∀ text, request.Spells fields json text → ∃ under value inside,
      request.Reads fields json "ofType" under value ∧ request.Spells under value inside ∧
      text = wrap inside)
    (joins : ∀ {under others : List Field} {value : Json} {inside : String},
      request.Reads fields json "kind" under (.string kind.text) →
      request.Reads fields json "ofType" others value → request.Spells others value inside →
      request.Spells fields json (wrap inside)) :
    (∀ text, request.Spells fields json text → text = wrap inner.text) ∧
      ∀ depth, inner.wrappers + 1 ≤ depth → request.Probes depth fields →
        request.Spells fields json (wrap inner.text) := by
  rcases exists_means resolvable with ⟨target, isTarget, _⟩
  constructor
  · intro text spells
    rcases splits text spells with ⟨under, value, inside, read, spellsInside, isText⟩
    rcases portrays.inside isType isWrapped isTarget read with ⟨object, isObject, shown⟩
    rw [isText, (spelled isObject shown).only _ spellsInside]
  · intro depth enough probes
    cases depth with
    | zero => exact absurd enough (Nat.not_succ_le_zero _)
    | succ depth =>
        rcases portrays.probed isType isKind isWrapped isTarget probes with
          ⟨⟨_, readsKind⟩, object, under, value, isObject, read, shown, further⟩
        exact joins readsKind read
          ((spelled isObject shown).all depth (Nat.le_of_succ_le_succ enough) further)

/-- A type that is shown is spelled as the reference to it. -/
private theorem Portrays.spelled {reference : TypeRef}
    (resolvable : request.registry.Resolvable reference) :
    ∀ {object : MetaObject} {fields : List Field} {json : Json},
      Means request.registry reference object → request.Portrays object fields json →
      request.Spelled reference fields json := by
  induction reference with
  | named name =>
      intro object fields json means portrays
      cases means with
      | named found => exact portrays.spelled_named (Named.find?_mem found).2
  | direct target =>
      intro object fields json means portrays
      cases means with
      | direct found => exact portrays.spelled_named (Named.find?_mem found).2
  | deferred target =>
      intro object fields json means portrays
      cases means with
      | deferred found => exact portrays.spelled_named (Named.find?_mem found).2
  | list item induction =>
      intro object fields json means portrays
      cases means
      have splits : ∀ text, request.Spells fields json text → ∃ under value inside,
          request.Reads fields json "ofType" under value ∧ request.Spells under value inside ∧
          text = "[" ++ inside ++ "]" := by
        intro text spells
        cases spells with
        | named isKind notList =>
            exact absurd (Json.string.inj (portrays.kind rfl rfl isKind)) notList
        | list isKind inside spelled => exact ⟨_, _, _, inside, spelled, rfl⟩
        | nonNull isKind =>
            exact absurd (Json.string.inj (portrays.kind rfl rfl isKind)) (by decide)
      have spelled := portrays.spelled_wrapper (fun text => "[" ++ text ++ "]") rfl rfl rfl
        resolvable (induction resolvable) splits .list
      exact ⟨spelled.1, spelled.2⟩
  | nonNull inner induction =>
      intro object fields json means portrays
      cases means
      have splits : ∀ text, request.Spells fields json text → ∃ under value inside,
          request.Reads fields json "ofType" under value ∧ request.Spells under value inside ∧
          text = inside ++ "!" := by
        intro text spells
        cases spells with
        | named isKind _ notNonNull =>
            exact absurd (Json.string.inj (portrays.kind rfl rfl isKind)) notNonNull
        | list isKind =>
            exact absurd (Json.string.inj (portrays.kind rfl rfl isKind)) (by decide)
        | nonNull isKind inside spelled => exact ⟨_, _, _, inside, spelled, rfl⟩
      have spelled := portrays.spelled_wrapper (fun text => text ++ "!") rfl rfl rfl resolvable
        (induction resolvable) splits .nonNull
      exact ⟨spelled.1, spelled.2⟩

end

/-! ## Describing objects -/

private def groupValue (request : Request) (depth : Nat) (object : MetaObject)
    (fields : List Field) : Json :=
  let name := ((fields.head?).map Field.name).getD ""
  if name = "__typename" then .string object.typeName
  else
    match object.property request.registry (request.includesDeprecated fields) name with
    | .leaf value => value
    | .object none => .null
    | .object (some inner) => request.describe depth inner fields
    | .list objects =>
        .array (objects.map fun
          | none => .null
          | some inner => request.describe depth inner fields)

private theorem describe_succ (depth : Nat) (object : MetaObject) (fields : List Field) :
    request.describe (depth + 1) object fields =
      .object ((request.collectFields object.typeName (fields.map Field.selections)).map
        fun group => (group.1, request.groupValue depth object group.2)) :=
  rfl

/-- What makes introspection of a request work. -/
structure Describable (request : Request) (schema : Schema) : Prop where
  yields : schema.Yields request.registry
  closed : request.registry.Closed
  accepted : request.subject.Accepted
  acyclic : request.document.Acyclic
  /-- Otherwise meta objects would have the fields of introspection themselves. -/
  apart : ∀ type ∈ Meta.all, type.name ≠ request.registry.query.name

namespace Describable

variable {fields : List Field} {sources : List (Option NamedType × List Selection)}
  {group : FieldGroup}

private theorem lookup_metaType (describable : request.Describable schema) (object : MetaObject) :
    request.registry.lookup? object.typeName = some object.metaType := by
  rw [← metaType_name]
  exact describable.yields.lookup_builtIn (List.mem_append_right _ object.metaType_mem)

private theorem object_metaType (describable : request.Describable schema) (object : MetaObject) :
    request.registry.object? object.metaType.name = some object.metaType := by
  rw [metaType_name, Registry.object?, describable.lookup_metaType]
  cases object <;> rfl

private theorem not_inherits (object : MetaObject) (definition : FieldDefinition) :
    ¬request.registry.Inherits object.metaType definition := by
  rintro ⟨_, shape, isShape, reference, declared, _⟩
  cases object
  all_goals
    cases isShape
    cases declared

/-- All nodes of a group on a meta object are selected as one field that its type has. -/
private theorem group_defined (describable : request.Describable schema)
    (suits : request.Suits object.metaType sources)
    (collected : group ∈ request.collectFields object.typeName (sources.map Prod.snd)) :
    ∃ merged definition, merged.map SelectedField.field = group.2 ∧
      request.Merges object.metaType merged ∧
      (∀ selected ∈ merged, selected.definition = some definition) ∧
      ∀ field ∈ group.2, field.name = ((group.2.head?).map Field.name).getD "" ∧
        request.registry.field? object.metaType field.name = some definition := by
  have registered := describable.object_metaType object
  rw [← metaType_name] at collected
  rcases suits.merges registered collected with ⟨merged, isMap, merges⟩
  have defined : ∀ selected ∈ merged, ∃ definition, selected.definition = some definition ∧
      request.registry.field? object.metaType selected.field.name = some definition := by
    intro selected member
    rcases (merges.fits selected member).selected_on describable.accepted describable.yields
      (merges.has selected member) with ⟨parent, definition, known, runsAs, _, isDefined, isField⟩
    rcases runsAs.has_or_inherits describable.yields registered known isField with
      own | ⟨_, _, inherits⟩
    · exact ⟨definition, isDefined, own⟩
    · exact absurd inherits (not_inherits object definition)
  cases isMerged : merged with
  | nil =>
      rw [isMerged] at isMap
      exact absurd isMap.symm (collectFields_ne_nil collected)
  | cons first rest =>
      have isFirst : first ∈ merged := isMerged ▸ List.mem_cons_self
      have headName : ((group.2.head?).map Field.name).getD "" = first.field.name := by
        rw [← isMap, isMerged]
        rfl
      rcases defined first isFirst with ⟨definition, isDefined, isField⟩
      have all : ∀ selected ∈ merged, selected.field.name = first.field.name ∧
          selected.definition = some definition := by
        intro selected member
        have sameName := (merges.same member isFirst).1
        rcases defined selected member with ⟨other, isOther, isOtherField⟩
        rw [sameName, isField] at isOtherField
        exact ⟨sameName, isOther.trans isOtherField.symm⟩
      subst isMerged
      refine ⟨first :: rest, definition, isMap, merges, fun selected member =>
        (all selected member).2, fun field inGroup => ?_⟩
      rw [← isMap] at inGroup
      rcases List.mem_map.mp inGroup with ⟨selected, member, rfl⟩
      rw [headName, (all selected member).1]
      exact ⟨rfl, isField⟩

/-- What is selected under a field of meta objects suits the objects that it leads to. -/
private theorem suits_under (describable : request.Describable schema) {outer : NamedType}
    {merged : List SelectedField} (merges : request.Merges outer merged)
    {definition : FieldDefinition}
    (defined : ∀ selected ∈ merged, selected.definition = some definition) {inner : MetaObject}
    (sameName : inner.typeName = definition.type.typeName) :
    request.Suits inner.metaType (merged.map fun selected =>
      (selected.inner request.registry, selected.field.selections)) := by
  refine merges.suits_of_covers describable.accepted fun selected member => ?_
  refine ⟨inner.metaType, ?_, runsAs_self (describable.object_metaType inner)⟩
  rw [SelectedField.inner, SelectedField.type?, defined selected member]
  have found := describable.lookup_metaType inner
  rw [sameName] at found
  exact found

/-- JSON that shows an object and conforms to its type. -/
structure Reflects (request : Request) (object : MetaObject) (fields : List Field) (json : Json) :
    Prop where
  portrays : request.Portrays object fields json
  conforms : ∀ type : TypeRef, type.nullable.listItem? = none →
    type.typeName = object.typeName →
    request.Conforms .none type (fields.map Field.selections) json

/-- So many levels are enough to describe known objects. -/
private def Reaches (request : Request) (depth : Nat) : Prop :=
  ∀ (object : MetaObject) (fields : List Field)
    (sources : List (Option NamedType × List Selection)), object.Known request.registry →
    request.Suits object.metaType sources → sources.map Prod.snd = fields.map Field.selections →
    request.document.nesting (fields.map Field.selections).flatten < depth →
    Reflects request object fields (request.describe depth object fields)

private theorem declared_of_field? (describable : request.Describable schema)
    (object : MetaObject) {definition : FieldDefinition} {name : String}
    (notTypeName : name ≠ "__typename")
    (isField : request.registry.field? object.metaType name = some definition) :
    definition ∈ (object.metaType.fields?).getD [] ∧ definition.name = name := by
  rcases field?_cases request.registry object.metaType notTypeName with plain | ⟨isQuery, _⟩
  · rw [plain] at isField
    rcases Option.bind_eq_some_iff.mp isField with ⟨definitions, isFields, found⟩
    rw [isFields]
    exact Named.find?_mem found
  · exact absurd isQuery (describable.apart _ object.metaType_mem)

/-- What a field of meta objects leads to is described with enough levels. -/
theorem reflects_under (describable : request.Describable schema) {depth : Nat}
    (reaches : Reaches request depth) {outer : NamedType} {merged : List SelectedField}
    (merges : request.Merges outer merged) {definition : FieldDefinition}
    (defined : ∀ selected ∈ merged, selected.definition = some definition)
    (shallow : request.document.nesting
      ((merged.map SelectedField.field).map Field.selections).flatten < depth)
    {inner : MetaObject} (known : inner.Known request.registry)
    (sameName : inner.typeName = definition.type.typeName) :
    Reflects request inner (merged.map SelectedField.field)
      (request.describe depth inner (merged.map SelectedField.field)) := by
  refine reaches inner _ _ known (describable.suits_under merges defined sameName) ?_ shallow
  rw [List.map_map, List.map_map]
  rfl

/-- What is described of a group is what the object has to show, in the form of its type. -/
private theorem groupValue_reflects (describable : request.Describable schema) {depth : Nat}
    (reaches : Reaches request depth) (known : object.Known request.registry)
    {merged : List SelectedField} (isMap : merged.map SelectedField.field = fields)
    (merges : request.Merges object.metaType merged) {definition : FieldDefinition}
    (defined : ∀ selected ∈ merged, selected.definition = some definition)
    (shallow : request.document.nesting (fields.map Field.selections).flatten < depth)
    (isName : ((fields.head?).map Field.name).getD "" = name) (notTypeName : name ≠ "__typename")
    (isField : request.registry.field? object.metaType name = some definition) :
    request.Shows object name fields (request.groupValue depth object fields) ∧
      request.Conforms .none definition.type (fields.map Field.selections)
        (request.groupValue depth object fields) := by
  rcases describable.declared_of_field? object notTypeName isField with ⟨declared, sameName⟩
  have inner : ∀ {inner : MetaObject}, inner.Known request.registry →
      inner.typeName = definition.type.typeName →
      Reflects request inner fields (request.describe depth inner fields) := by
    subst isMap
    exact describable.reflects_under reaches merges defined shallow
  have suited : request.Suited (request.includesDeprecated fields) object definition.name
      definition.type _ := property_suited describable.yields describable.closed known declared
  rw [sameName] at suited
  rw [groupValue]
  simp only [isName, if_neg notTypeName]
  cases isValue : object.property request.registry (request.includesDeprecated fields) name with
  | leaf value =>
      rw [isValue] at suited
      cases suited with
      | leaf tells conforms => exact ⟨.leaf tells, conforms _⟩
      | null lacks mayBeNull => exact ⟨.null lacks notTypeName, .null mayBeNull⟩
  | object target =>
      rw [isValue] at suited
      cases suited with
      | missing lacks mayBeNull => exact ⟨.null lacks notTypeName, .null mayBeNull⟩
      | @object target leads targetKnown isSingle sameTarget =>
          have reflects := inner targetKnown sameTarget
          refine ⟨.object leads reflects.portrays fun reference means => ?_,
            reflects.conforms definition.type isSingle sameTarget.symm⟩
          exact reflects.portrays.spelled (means.resolvable targetKnown) means
  | list objects =>
      rw [isValue] at suited
      cases suited with
      | @list members item lists membersKnown isList isSingle =>
          have reflects : ∀ member ∈ members,
              Reflects request member fields (request.describe depth member fields) := by
            intro member listed
            exact inner (membersKnown member listed).1
              ((membersKnown member listed).2.trans (TypeRef.typeName_listItem isList))
          have values : ((members.map some).map fun
              | none => Json.null
              | some inner => request.describe depth inner fields) =
              members.map fun member => request.describe depth member fields :=
            List.map_map
          simp only
          rw [values]
          refine ⟨.list lists (List.length_map _) fun index member item isMember isItem => ?_,
            .items isList fun json member => ?_⟩
          · rw [List.getElem?_map, isMember] at isItem
            cases isItem
            exact (reflects member (List.mem_of_getElem? isMember)).portrays
          · rcases List.mem_map.mp member with ⟨inner, listed, rfl⟩
            exact (reflects inner listed).conforms item isSingle (membersKnown inner listed).2.symm

/-- Every group of a meta object is shown, and in the form of its field. -/
private theorem group_reflects (describable : request.Describable schema) {depth : Nat}
    (reaches : Reaches request depth) (known : object.Known request.registry)
    (suits : request.Suits object.metaType sources)
    (collected : group ∈ request.collectFields object.typeName (sources.map Prod.snd))
    (shallow : request.document.nesting (sources.map Prod.snd).flatten ≤ depth) :
    (∀ field ∈ group.2, request.Shows object field.name group.2
      (request.groupValue depth object group.2)) ∧
    ∃ slot, request.slot? object.metaType group = some slot ∧
      ∀ slots entries, request.ConformsFields .none object.metaType.name slots entries →
        request.ConformsFields .none object.metaType.name (slot :: slots)
          ((group.1, request.groupValue depth object group.2) :: entries) := by
  rcases describable.group_defined suits collected with
    ⟨merged, definition, isMap, merges, defined, same⟩
  rcases List.exists_mem_of_ne_nil _ (collectFields_ne_nil collected) with ⟨field, inGroup⟩
  rcases same field inGroup with ⟨isHead, isField⟩
  have isSlot : request.slot? object.metaType group = some ⟨group.1, definition, group.2⟩ := by
    rw [slot?, ← isHead, isField]
    rfl
  by_cases isTypeName : field.name = "__typename"
  · have value : request.groupValue depth object group.2 = .string object.typeName := by
      rw [groupValue, ← isHead]
      simp [isTypeName]
    rw [value]
    refine ⟨fun other member => .typeName ?_, _, isSlot, fun slots entries rest => ?_⟩
    · rw [(same other member).1, ← isHead, isTypeName]
    · rw [← metaType_name]
      exact .typeName (beq_iff_eq.mpr (isHead.symm.trans isTypeName)) rest
  · have reflects := describable.groupValue_reflects reaches known isMap merges defined
      ((collectFields_nesting_lt describable.acyclic collected).trans_le shallow) isHead.symm
      isTypeName isField
    refine ⟨fun other member => ?_, _, isSlot, fun slots entries rest => .checked reflects.2 rest⟩
    rw [(same other member).1, ← isHead]
    exact reflects.1

/-- With enough levels for their selections, known objects are described. -/
theorem reaches (describable : request.Describable schema) : ∀ depth, Reaches request depth := by
  intro depth
  induction depth with
  | zero =>
      intro object fields sources known suits sameSets shallow
      exact absurd shallow (Nat.not_lt_zero _)
  | succ depth induction =>
      intro object fields sources known suits sameSets shallow
      have reflects : ∀ group ∈ request.collectFields object.typeName (fields.map Field.selections),
          _ := fun group collected => describable.group_reflects induction known suits
            (sameSets ▸ collected) (sameSets ▸ Nat.le_of_lt_succ shallow)
      rw [describe_succ]
      refine ⟨.object ?_ ?_, fun type isSingle sameName => ?_⟩
      · rw [Named.names, Named.names, List.map_map]
        rfl
      · intro group collected field member value isValue
        rw [Named.value?_map fun _ => request.groupValue depth object,
          Named.value?_of_mem (request.collectFields_distinct _ _) collected] at isValue
        cases isValue
        exact (reflects group collected).1 field member
      · refine .object isSingle (sameName ▸ describable.lookup_metaType object)
          (runsAs_self (describable.object_metaType object)) ?_
        rw [slots, metaType_name, describable.lookup_metaType]
        have conforms : ∀ groups ⊆ request.collectFields object.typeName
            (fields.map Field.selections),
            request.ConformsFields .none object.metaType.name
              (groups.filterMap (request.slot? object.metaType))
              (groups.map fun group => (group.1, request.groupValue depth object group.2)) := by
          intro groups
          induction groups with
          | nil => exact fun _ => .nil
          | cons group groups rest =>
              intro subset
              have parts := List.cons_subset.mp subset
              rcases (reflects group parts.1).2 with ⟨slot, isSlot, longer⟩
              rw [List.filterMap_cons_some isSlot, List.map_cons]
              exact longer _ _ (rest parts.2)
        simpa only [metaType_name] using conforms _ (List.Subset.refl _)

end Describable

end Request

end GraphQL
