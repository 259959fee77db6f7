import GraphQL.Proofs.Execution.Refinement

/-!
The data of a finished execution conforms to the types of its positions: no null where the type
excludes it, arrays for lists, objects of possible types, names of enum values. Two kinds of
positions are written without such a check: scalars that serialize a value to null, and fields of
the application that have the name of an introspection field. They are the only exceptions.
-/

namespace GraphQL

/-! ## Conforming JSON -/

/-- What is taken without check: null from some scalars, and what introspection answers for some
fields. -/
structure Excuses where
  null : ScalarShape → Prop
  field : FieldDefinition → Prop

/-- The fields that introspection adds to the query type. -/
def FieldDefinition.IsIntrospection (definition : FieldDefinition) : Prop :=
  definition = Meta.schemaField ∨ definition = Meta.typeField

theorem FieldDefinition.IsIntrospection.name_eq {definition : FieldDefinition}
    (isIntrospection : definition.IsIntrospection) :
    definition.name = "__schema" ∨ definition.name = "__type" :=
  isIntrospection.imp (congrArg FieldDefinition.name) (congrArg FieldDefinition.name)

namespace Request

mutual

/-- JSON that conforms to a type in the response to selection sets. -/
inductive Conforms (request : Request) (excuses : Excuses) :
    TypeRef → List (List Selection) → Json → Prop
  | null {type : TypeRef} {sets : List (List Selection)} (mayBeNull : type.isNonNull = false) :
      Conforms request excuses type sets .null
  | items {type item : TypeRef} {sets : List (List Selection)} {jsons : List Json}
      (isList : type.nullable.listItem? = some item)
      (below : ∀ json ∈ jsons, Conforms request excuses item sets json) :
      Conforms request excuses type sets (.array jsons)
  | scalar {type : TypeRef} {sets : List (List Selection)} {named : NamedType}
      {shape : ScalarShape} {json : Json} (isSingle : type.nullable.listItem? = none)
      (registered : request.registry.lookup? type.typeName = some named)
      (isScalar : named.shape = .scalar shape) (given : json.isNull = true → excuses.null shape) :
      Conforms request excuses type sets json
  | enum {type : TypeRef} {sets : List (List Selection)} {named : NamedType}
      {values : List EnumValueDefinition} {name : String}
      (isSingle : type.nullable.listItem? = none)
      (registered : request.registry.lookup? type.typeName = some named)
      (isEnum : named.shape = .enum values)
      (declared : name ∈ values.map EnumValueDefinition.name) :
      Conforms request excuses type sets (.string name)
  | object {type : TypeRef} {sets : List (List Selection)} {named object : NamedType}
      {entries : List (String × Json)} (isSingle : type.nullable.listItem? = none)
      (registered : request.registry.lookup? type.typeName = some named)
      (runsAs : request.RunsAs named object)
      (fields : ConformsFields request excuses object.name (request.slots object sets) entries) :
      Conforms request excuses type sets (.object entries)

/-- The entries of an object that conform to its fields. -/
inductive ConformsFields (request : Request) (excuses : Excuses) :
    String → List Slot → List (String × Json) → Prop
  | nil {objectName : String} : ConformsFields request excuses objectName [] []
  | typeName {objectName : String} {slot : Slot} {slots : List Slot}
      {entries : List (String × Json)} (isTypeName : slot.isTypeName = true)
      (rest : ConformsFields request excuses objectName slots entries) :
      ConformsFields request excuses objectName (slot :: slots)
        ((slot.key, .string objectName) :: entries)
  | described {objectName : String} {slot : Slot} {slots : List Slot} {json : Json}
      {entries : List (String × Json)} (isIntrospection : slot.definition.IsIntrospection)
      (given : slot.definition.type.isNonNull = true → json.isNull = false)
      (rest : ConformsFields request excuses objectName slots entries) :
      ConformsFields request excuses objectName (slot :: slots) ((slot.key, json) :: entries)
  | excused {objectName : String} {slot : Slot} {slots : List Slot}
      {entries : List (String × Json)} (isExcused : excuses.field slot.definition)
      (rest : ConformsFields request excuses objectName slots entries) :
      ConformsFields request excuses objectName (slot :: slots)
        ((slot.key, request.introspect slot.definition.name slot.fields) :: entries)
  | checked {objectName : String} {slot : Slot} {slots : List Slot} {json : Json}
      {entries : List (String × Json)}
      (conforms : Conforms request excuses slot.definition.type
        (slot.fields.map Field.selections) json)
      (rest : ConformsFields request excuses objectName slots entries) :
      ConformsFields request excuses objectName (slot :: slots) ((slot.key, json) :: entries)

end

/-- Data that conforms to the root type, unless it is null as a whole. -/
def ConformsData (request : Request) (excuses : Excuses) (data : Json) : Prop :=
  data = .null ∨ ∃ entries, data = .object entries ∧
    request.ConformsFields excuses request.rootName request.rootSlots entries

end Request

namespace Excuses

/-- Nothing is taken without check. -/
def none : Excuses := ⟨fun _ => False, fun _ => False⟩

/-- What the executor takes without check: null that a scalar made of a value, and the answer of
introspection for a field that only has the name. -/
def unchecked : Excuses where
  null scalar := ∃ json, json.isNull = false ∧ scalar.serialize json = .ok .null
  field definition :=
    (definition.name = "__schema" ∨ definition.name = "__type") ∧ ¬definition.IsIntrospection

end Excuses

namespace Request

variable {request : Request}

/-! ## What conforming JSON looks like -/

section

variable {type : TypeRef} {sets : List (List Selection)} {json : Json}

theorem Conforms.nonNull (conforms : request.Conforms .none type sets json)
    (required : type.isNonNull = true) : json.isNull = false := by
  cases conforms with
  | null mayBeNull =>
      rw [required] at mayBeNull
      cases mayBeNull
  | scalar isSingle registered isScalar given =>
      cases isNull : json.isNull with
      | false => rfl
      | true => exact (given isNull).elim
  | items => rfl
  | enum => rfl
  | object => rfl

theorem Conforms.composite {named : NamedType} (conforms : request.Conforms .none type sets json)
    (isSingle : type.nullable.listItem? = none)
    (registered : request.registry.lookup? type.typeName = some named)
    (isComposite : named.isComposite = true) :
    json = .null ∨ ∃ object entries, json = .object entries ∧ request.RunsAs named object ∧
      request.ConformsFields .none object.name (request.slots object sets) entries := by
  cases conforms with
  | null => exact .inl rfl
  | items isList => rw [isSingle] at isList; cases isList
  | scalar _ known isScalar =>
      rw [registered, Option.some.injEq] at known
      simp [known, NamedType.isComposite, NamedType.isObject, NamedType.isAbstract, isScalar]
        at isComposite
  | enum _ known isEnum =>
      rw [registered, Option.some.injEq] at known
      simp [known, NamedType.isComposite, NamedType.isObject, NamedType.isAbstract, isEnum]
        at isComposite
  | object _ known runsAs fields =>
      rw [registered, Option.some.injEq] at known
      exact .inr ⟨_, _, rfl, known ▸ runsAs, fields⟩

end

/-! ## Conformance as an interpretation -/

/-- Introspection fields are answered by introspection, in a request with levels to describe. -/
def introspected (request : Request) : Answering := fun call _ resolution =>
  call.isMeta = true → 0 < request.depth ∧
    resolution = .outcome (.value (.json (request.introspect call.definition.name call.fields)))

/-- What a position may show as far as the executor checks it. -/
private def conformance (request : Request) : Interpretation (Json → Prop) where
  admits meaning json := meaning json
  yields meaning type := ∀ inner, type = some inner → inner.isNonNull = false → meaning .null
  typeName name json := json = .string name
  resolve call _ json :=
    if call.isMeta then
      0 < request.depth ∧ json = request.introspect call.definition.name call.fields
    else request.Conforms .unchecked call.definition.type call.selectionSets json
  complete call type _ _ json := request.Conforms .unchecked type call.selectionSets json

private theorem conforms_yields (type : TypeRef) (sets : List (List Selection)) :
    request.conformance.yields (request.Conforms .unchecked type sets) (some type) := by
  intro inner isType mayBeNull
  rw [Option.some.injEq] at isType
  exact .null (isType ▸ mayBeNull)

private theorem introspect_schema_isNull (fields : List Field) (deep : 0 < request.depth) :
    (request.introspect "__schema" fields).isNull = false := by
  rw [introspect]
  cases isDeep : request.depth with
  | zero => rw [isDeep] at deep; cases deep
  | succ depth => rfl

/-- Fields that show what they may show conform. -/
private theorem conformsFields_of_admitted {objectName : String} {parent : FieldValue} {path : Path}
    (slots : List Slot) :
    ∀ jsons : List Json,
      List.Forall₂ request.conformance.admits
        (slots.map (request.conformance.slot objectName parent path)) jsons →
      request.ConformsFields .unchecked objectName slots ((slots.map Slot.key).zip jsons) := by
  induction slots with
  | nil => exact fun _ _ => .nil
  | cons slot slots induction =>
      intro jsons admitted
      cases admitted with
      | @cons _ json _ jsons here rest =>
          have conformsRest := induction jsons rest
          rw [List.map_cons, List.zip_cons_cons]
          rw [Interpretation.slot] at here
          by_cases isTypeName : slot.isTypeName = true
          · rw [if_pos isTypeName] at here
            have isName : json = .string objectName := here
            exact isName ▸ .typeName isTypeName conformsRest
          · rw [if_neg isTypeName] at here
            by_cases isMeta : (slot.call objectName parent).isMeta = true
            · have shown : 0 < request.depth ∧
                  json = request.introspect slot.definition.name slot.fields :=
                (if_pos isMeta).mp here
              by_cases isIntrospection : slot.definition.IsIntrospection
              · refine .described isIntrospection ?_ conformsRest
                intro required
                rcases isIntrospection with isSchema | isType
                · rw [shown.2, isSchema]
                  exact introspect_schema_isNull slot.fields shown.1
                · rw [isType] at required
                  cases required
              · rw [shown.2]
                refine .excused ⟨?_, isIntrospection⟩ conformsRest
                simpa [FieldCall.isMeta, Slot.call] using isMeta
            · exact .checked ((if_neg isMeta).mp here) conformsRest

theorem exists_of_forall₂ {α β : Type} {related : α → β → Prop} {left : List α} {right : List β}
    (relates : List.Forall₂ related left right) {one : β} (member : one ∈ right) :
    ∃ other ∈ left, related other one := by
  induction relates with
  | nil => cases member
  | @cons first second left right here _ induction =>
      rcases List.mem_cons.mp member with equal | later
      · exact ⟨first, List.mem_cons_self, equal ▸ here⟩
      · rcases induction later with ⟨other, isOther, holds⟩
        exact ⟨other, List.mem_cons_of_mem first isOther, holds⟩

/-- A leaf that was serialized conforms. -/
private theorem serialized_conforms {type : TypeRef} {sets : List (List Selection)}
    {named : NamedType} {value : FieldValue} {json : Json} (notNull : value.isNull = false)
    (isSingle : type.nullable.listItem? = none)
    (registered : request.registry.lookup? type.typeName = some named)
    (isLeaf : named.isLeaf = true) (serialized : serialize named named.shape value = .ok json) :
    request.Conforms .unchecked type sets json := by
  rcases serialize_ok serialized with ⟨plain, isPlain, ended⟩
  have isValue : plain.isNull = false := isPlain.trans notNull
  cases isShape : named.shape with
  | scalar shape =>
      rw [isShape] at ended
      refine .scalar isSingle registered isShape fun isNull => ⟨plain, isValue, ?_⟩
      cases json with
      | null => exact ended
      | _ => cases isNull
  | enum values =>
      rw [isShape] at ended
      rcases ended with ⟨name, found, isName⟩
      rcases Option.map_eq_some_iff.mp found with ⟨definition, declared, equal⟩
      rw [isName]
      exact .enum isSingle registered isShape
        (List.mem_map.mpr ⟨definition, List.mem_of_find?_eq_some declared, equal⟩)
  | _ => simp [NamedType.isLeaf, isShape] at isLeaf

private theorem conformance_sound : request.conformance.Sound request request.introspected where
  arrives mayBeNull given := given _ rfl mayBeNull
  typeName name := rfl
  answer answered notMeta := by
    funext json
    exact if_neg (by simp [notMeta])
  failure comes := by
    cases comes with
    | @refused task resolution _ answered refusal =>
        have notMeta : ¬task.isMeta = true := by
          intro isMeta
          rw [(answered isMeta).2] at refusal
          cases refusal
        intro inner isType mayBeNull
        have sameType : task.definition.type = inner := Option.some.inj isType
        exact (if_neg notMeta).mpr (.null (sameType ▸ mayBeNull))
    | judged => exact conforms_yields _ _
  null comes := by
    cases comes with
    | judged judged =>
        cases judged with
        | null isNull mayBeNull => exact .null mayBeNull
  leaf comes := by
    cases comes with
    | @described task value answered isMeta =>
        have isAnswer := (answered isMeta).2
        cases isAnswer
        exact (if_pos isMeta).mpr ⟨(answered isMeta).1, rfl⟩
    | judged judged =>
        cases judged with
        | leaf notNull isSingle registered isLeaf serialized =>
            exact serialized_conforms notNull isSingle registered isLeaf serialized
  items comes := by
    cases comes with
    | judged judged =>
        cases judged with
        | items notNull isList iterable =>
            refine ⟨?_, fun _ _ _ _ _ => conforms_yields _ _⟩
            intro jsons admitted
            refine .items isList fun json member => ?_
            rcases exists_of_forall₂ admitted member with ⟨part, isPart, conforms⟩
            rcases List.mem_map.mp isPart with ⟨entry, _, equal⟩
            rw [← equal] at conforms
            exact conforms
  object comes := by
    cases comes with
    | judged judged =>
        cases judged with
        | object notNull isSingle registered runsAs =>
            refine ⟨?_, fun _ _ _ _ _ => conforms_yields _ _⟩
            intro jsons admitted
            exact .object isSingle registered runsAs (conformsFields_of_admitted _ jsons admitted)

private theorem conformance_root (rootValue : FieldValue) :
    request.conformance.SpansRoot request rootValue fun json => ∃ entries, json = .object entries ∧
      request.ConformsFields .unchecked request.rootName request.rootSlots entries where
  admits jsons admitted := ⟨_, rfl, conformsFields_of_admitted _ jsons admitted⟩
  yields := by
    intro part member required isRequired given inner noType
    cases noType

end Request

/-! ## Where nothing goes unchecked -/

/-- No type declares a field with the name of an introspection field. -/
def Registry.ReservesIntrospection (registry : Registry) : Prop :=
  ∀ type ∈ registry.types, ∀ name, name = "__schema" ∨ name = "__type" → type.field? name = none

namespace Request

variable {request : Request}

private theorem slots_checked (reserves : request.registry.ReservesIntrospection)
    {object : NamedType}
    {sets : List (List Selection)} {slot : Slot} (member : slot ∈ request.slots object sets) :
    ¬Excuses.unchecked.field slot.definition := by
  rintro ⟨hasName, notIntrospection⟩
  rcases mem_slots member with ⟨named, registered, _, defined⟩
  rw [Registry.field?] at defined
  split at defined
  · rw [← Option.some.inj defined] at hasName
    exact absurd hasName (by decide)
  · split at defined
    · exact notIntrospection (.inl (Option.some.inj defined).symm)
    · split at defined
      · exact notIntrospection (.inr (Option.some.inj defined).symm)
      · rcases Option.bind_eq_some_iff.mp defined with ⟨fields, isFields, found⟩
        have sameName : slot.definition.name = _ := (Named.find?_mem found).2
        rw [sameName] at hasName
        rw [reserves named (Named.find?_mem registered).1 _ hasName] at defined
        cases defined

private theorem rootSlots_checked (reserves : request.registry.ReservesIntrospection) {slot : Slot}
    (member : slot ∈ request.rootSlots) : ¬Excuses.unchecked.field slot.definition := by
  rw [rootSlots] at member
  cases isRoot : request.rootType? with
  | none =>
      rw [isRoot] at member
      cases member
  | some object =>
      rw [isRoot] at member
      exact slots_checked reserves member

mutual

private theorem Conforms.strict (keeps : request.registry.KeepsValues)
    (reserves : request.registry.ReservesIntrospection) {type : TypeRef}
    {sets : List (List Selection)} {json : Json} :
    request.Conforms .unchecked type sets json → request.Conforms .none type sets json
  | .null mayBeNull => .null mayBeNull
  | .items isList below =>
      .items isList fun json member => Conforms.strict keeps reserves (below json member)
  | .enum isSingle registered isEnum declared => .enum isSingle registered isEnum declared
  | .object isSingle registered runsAs fields =>
      .object isSingle registered runsAs
        (ConformsFields.strict keeps reserves (fun _ member => slots_checked reserves member)
          fields)
  | .scalar isSingle registered isScalar given => by
      refine .scalar isSingle registered isScalar fun isNull => ?_
      rcases given isNull with ⟨plain, isValue, serialized⟩
      have kept := keeps.scalar (Named.find?_mem registered).1 isScalar
      cases kept plain .null isValue serialized

private theorem ConformsFields.strict (keeps : request.registry.KeepsValues)
    (reserves : request.registry.ReservesIntrospection) {objectName : String} {slots : List Slot}
    {entries : List (String × Json)}
    (checked : ∀ slot ∈ slots, ¬Excuses.unchecked.field slot.definition) :
    request.ConformsFields .unchecked objectName slots entries →
      request.ConformsFields .none objectName slots entries
  | .nil => .nil
  | .typeName isTypeName rest =>
      .typeName isTypeName (ConformsFields.strict keeps reserves
        (fun slot member => checked slot (List.mem_cons_of_mem _ member)) rest)
  | .described isIntrospection given rest =>
      .described isIntrospection given (ConformsFields.strict keeps reserves
        (fun slot member => checked slot (List.mem_cons_of_mem _ member)) rest)
  | .excused isExcused rest => absurd isExcused (checked _ List.mem_cons_self)
  | .checked conforms rest =>
      .checked (Conforms.strict keeps reserves conforms) (ConformsFields.strict keeps reserves
        (fun slot member => checked slot (List.mem_cons_of_mem _ member)) rest)

end

/-! ## Finished executions -/

/-- What holds of a finished draft and its data. -/
structure Conformant (request : Request) (draft : Draft) (data : Json) : Prop where
  settled : ∀ {id node}, draft.tree.node? id = some node → draft.tree.isDiscarded id = false →
    node.content ≠ .pending
  unchecked : request.ConformsData .unchecked data
  strict : request.registry.KeepsValues → request.registry.ReservesIntrospection →
    request.ConformsData .none data

private theorem ConformsData.strict (keeps : request.registry.KeepsValues)
    (reserves : request.registry.ReservesIntrospection) {data : Json}
    (conforms : request.ConformsData .unchecked data) : request.ConformsData .none data := by
  rcases conforms with isNull | ⟨entries, isObject, fields⟩
  · exact .inl isNull
  · exact .inr ⟨entries, isObject,
      fields.strict keeps reserves fun _ member => rootSlots_checked reserves member⟩

private theorem Runs.conformant {rootValue : FieldValue} {draft : Draft}
    (runs : request.Runs request.introspected (request.initial rootValue) (draft, 0)) :
    request.Conformant draft draft.tree.data := by
  have valid : Progress.Valid (draft, 0) := runs.valid
  have conforms : request.ConformsData .unchecked draft.tree.data := by
    rcases Interpretation.data_admitted conformance_sound (conformance_root rootValue) runs with
      ⟨isNull, _⟩ | shown
    · exact .inl isNull
    · exact .inr shown
  refine ⟨?_, conforms, fun keeps reserves => conforms.strict keeps reserves⟩
  intro id node found live isPending
  rcases valid.covered found isPending live with ⟨duty, member, _⟩
  exact absurd member (Multiset.notMem_zero duty)

section Strategies

variable {σ : Type}

/-- Resolvers may do anything, in a request with levels to describe. -/
private def describing (request : Request) : Conditions σ where
  sound _ := 0 < request.depth
  allowed := request.introspected
  aborts _ := True

private theorem describing_holds (request : Request) (application : Application σ) :
    (request.describing : Conditions σ).Holds request application where
  start := by
    intro call path world sound
    have deep : 0 < request.depth := sound
    by_cases isMeta : call.isMeta = true
    · rw [start, if_pos isMeta]
      exact ⟨fun _ => ⟨deep, rfl⟩, deep⟩
    · cases request.start application path call world with
      | mk started later =>
          cases started with
          | resolved resolution => exact ⟨fun impossible => absurd impossible isMeta, deep⟩
          | suspended delay wake =>
              exact ⟨fun _ _ => ⟨fun impossible => absurd impossible isMeta, deep⟩, deep⟩
  check _ sound := ⟨sound, fun _ _ => trivial⟩
  interrupted _ sound := ⟨sound, fun _ _ => trivial⟩
  waitUntil _ _ sound := ⟨sound, fun _ _ => trivial⟩
  panic _ _ := trivial

private theorem describing_layers (request : Request) :
    request.Layers (request.describing : Conditions σ) fun _ _ => True :=
  ⟨fun _ => Depths.any request, fun _ _ => trivial⟩

/-- Without levels only an operation without fields to resolve is executed. -/
private theorem executed_shallow {request : Request} {application : Application σ}
    {rootValue : FieldValue} {world : World σ} {run : Run σ} {data : Json}
    (shallow : request.depth = 0)
    (executed : request.executeParallel application rootValue world = (run, .ok data) ∨
      request.executeSerial application rootValue world = (run, .ok data)) :
    (request.rootTasks rootValue).2 = [] ∧ run.draft = (request.rootTasks rootValue).1 ∧
      data = run.draft.tree.data := by
  cases tasks : (request.rootTasks rootValue).2 with
  | nil =>
      refine ⟨rfl, ?_⟩
      rcases executed with isParallel | isSerial
      · rw [executeParallel] at isParallel
        simp only [tasks, shallow] at isParallel
        cases isParallel
        exact ⟨rfl, rfl⟩
      · rw [executeSerial] at isSerial
        simp only [tasks] at isSerial
        cases isSerial
        exact ⟨rfl, rfl⟩
  | cons task tasks' =>
      rcases executed with isParallel | isSerial
      · rw [executeParallel] at isParallel
        simp only [tasks, shallow] at isParallel
        cases isParallel
      · rw [executeSerial] at isSerial
        simp only [tasks, runEach, shallow] at isSerial
        cases isSerial

end Strategies

end Request

/-- Finished executions conform to the types of positions, whatever resolvers do and however they
are scheduled. No node is left pending. Data conforms but for null that a scalar makes of a value
and for the answer of introspection in a field that only has the name of an introspection field, and
without exception where there are no such scalars and fields. -/
theorem Request.finished_conforms (request : Request) (rootValue : FieldValue) :
    (∀ draft : Draft, request.Runs request.introspected (request.initial rootValue) (draft, 0) →
      request.Conformant draft draft.tree.data) ∧
    ∀ (σ : Type) (application : Application σ) (world : World σ) (run : Run σ) (data : Json),
      (request.executeParallel application rootValue world = (run, .ok data) ∨
        request.executeSerial application rootValue world = (run, .ok data)) →
      request.Conformant run.draft data := by
  refine ⟨fun draft runs => Runs.conformant runs, ?_⟩
  intro σ application world run data executed
  rcases Nat.eq_zero_or_pos request.depth with shallow | deep
  · have nothing : (request.rootTasks rootValue).2 = [] ∧
        run.draft = (request.rootTasks rootValue).1 ∧ data = run.draft.tree.data :=
      executed_shallow shallow executed
    have runs : request.Runs request.introspected (request.initial rootValue) (run.draft, 0) := by
      rw [initial, nothing.1, nothing.2.1]
      exact .refl
    rw [nothing.2.2]
    exact Runs.conformant runs
  · have holds := describing_holds request application
    have ends : request.Ends (request.describing : Conditions σ) rootValue (run, .ok data) := by
      rcases executed with isParallel | isSerial
      · rw [← isParallel]
        exact executeParallel_ends holds (describing_layers request) rootValue deep
          fun _ _ => trivial
      · rw [← isSerial]
        exact executeSerial_ends holds (describing_layers request) rootValue deep
          fun _ _ => trivial
    rw [ends.2]
    exact Runs.conformant ends.1

private theorem Greeter.reservesIntrospection : request.registry.ReservesIntrospection := by
  intro named registered name isReserved
  rcases List.mem_append.mp registered with isBuiltIn | isCustom
  · simp only [Scalar.all, List.mem_cons, List.not_mem_nil, or_false] at isBuiltIn
    rcases isBuiltIn with equal | equal | equal | equal | equal
    all_goals
      rw [equal]
      rfl
  · rw [List.mem_singleton.mp isCustom]
    rcases isReserved with isSchema | isType
    · subst isSchema
      rfl
    · subst isType
      rfl

/-- Nothing goes unchecked for the greeter. -/
theorem Request.finished_conforms_of_greeter :
    Greeter.request.ConformsData .none Greeter.data := by
  have finished := (Request.finished_conforms Greeter.request Greeter.root).2 Unit
    Greeter.application { state := () }
  generalize isResult : Greeter.request.executeParallel Greeter.application Greeter.root
    { state := () } = result at finished
  have executed : result.2 = .ok Greeter.data := isResult ▸ Greeter.executed
  have conformant := finished result.1 Greeter.data (.inl (Prod.ext rfl executed))
  exact conformant.strict Greeter.keepsValues Greeter.reservesIntrospection

namespace Impostor

/-! A field of the application that has the name of an introspection field. -/

def type : NamedType where
  key := .custom 0
  name := "Foo"
  shape := .object { fields := [{ name := "__type", type := .nonNull (.named "Int") }] }

def query : NamedType where
  key := .custom 1
  name := "Query"
  shape := .object { fields := [{ name := "foo", type := .named "Foo" }] }

def registry : Registry where
  types := Scalar.all ++ [query, type]
  query := query
  mutation := none
  subscription := none
  directives := []
  possibleTypes := []

def operation : Operation :=
  ⟨⟨1, 1⟩, .query, none, [], [],
    [.field ⟨⟨1, 3⟩, none, "foo", [], [], [.field ⟨⟨1, 9⟩, none, "__type", [], [], []⟩]⟩]⟩

def request : Request where
  registry := registry
  document := ⟨[.operation operation]⟩
  operation := operation
  variableValues := []
  token := ⟨0, none⟩
  depth := 2

def root : FieldValue := .json (.object [("foo", .object [("__type", .int 5)])])

def data : Json := .object [("foo", .object [("__type", .null)])]

theorem executed : (request.executeParallel Greeter.application root { state := () }).2 =
    .ok data := by
  cbv

private def slot : Slot :=
  ⟨"__type", { name := "__type", type := .nonNull (.named "Int") },
    [⟨⟨1, 9⟩, none, "__type", [], [], []⟩]⟩

private theorem rootSlots_eq : request.rootSlots =
    [⟨"foo", { name := "foo", type := .named "Foo" },
      [⟨⟨1, 3⟩, none, "foo", [], [], [.field ⟨⟨1, 9⟩, none, "__type", [], [], []⟩]⟩]⟩] := by
  cbv

private theorem slots_eq : request.slots type [[.field ⟨⟨1, 9⟩, none, "__type", [], [], []⟩]] =
    [slot] := by
  cbv

private theorem slot_not_introspection : ¬slot.definition.IsIntrospection := by
  rintro (isSchema | isType)
  · exact absurd (congrArg FieldDefinition.name isSchema) (by decide)
  · exact absurd (congrArg FieldDefinition.type isType) (by decide)

private theorem fields_not_conform :
    ¬request.ConformsFields .none "Foo" [slot] [("__type", .null)] := by
  intro fields
  cases fields with
  | described isIntrospection => exact slot_not_introspection isIntrospection
  | excused isExcused => exact isExcused.elim
  | checked conforms => cases conforms.nonNull rfl

private theorem foo_not_conforms :
    ¬request.Conforms .none (.named "Foo") [[.field ⟨⟨1, 9⟩, none, "__type", [], [], []⟩]]
      (.object [("__type", .null)]) := by
  intro conforms
  have registered : request.registry.lookup? (TypeRef.named "Foo").typeName = some type := by cbv
  rcases conforms.composite rfl registered rfl with isNull |
      ⟨object, entries, isObject, runsAs, fields⟩
  · cases isNull
  · cases isObject
    rcases runsAs with ⟨_, equal⟩ | ⟨isAbstract, _⟩
    · rw [equal, slots_eq] at fields
      exact fields_not_conform fields
    · cases isAbstract

/-- Introspection says null where the type of the impostor excludes it. -/
theorem not_conforms : ¬request.ConformsData .none data := by
  rintro (isNull | ⟨entries, isObject, fields⟩)
  · cases isNull
  · cases isObject
    rw [rootSlots_eq] at fields
    cases fields with
    | described isIntrospection => exact absurd isIntrospection.name_eq (by decide)
    | checked conforms => exact foo_not_conforms conforms

end Impostor

end GraphQL
