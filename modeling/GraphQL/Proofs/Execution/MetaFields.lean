import GraphQL.Proofs.Execution.Conformance
import GraphQL.Proofs.Schema.Portrait

/-!
The fields of meta objects one by one. Whatever a meta type declares as a field, its objects have a
value for: what they have to show there, in a form that the type of the field allows. In a field
that excludes null there is always something to show.
-/

namespace GraphQL

open MetaObject

namespace Request

/-- The value of a field of a meta object is what the object has to show there, in a form that the
type of the field allows. -/
inductive Suited (request : Request) (withDeprecated : Bool) (object : MetaObject) (name : String)
    (type : TypeRef) : MetaValue → Prop
  | leaf {value : Json} (tells : object.Tells request.registry name value)
      (conforms : ∀ sets, request.Conforms .none type sets value) :
      Suited request withDeprecated object name type (.leaf value)
  | null (lacks : object.Lacks request.registry name) (mayBeNull : type.isNonNull = false) :
      Suited request withDeprecated object name type (.leaf .null)
  | missing (lacks : object.Lacks request.registry name) (mayBeNull : type.isNonNull = false) :
      Suited request withDeprecated object name type (.object none)
  | object {inner : MetaObject} (leads : object.LeadsTo request.registry name inner)
      (known : inner.Known request.registry) (isSingle : type.nullable.listItem? = none)
      (sameName : inner.typeName = type.typeName) :
      Suited request withDeprecated object name type (.object (some inner))
  | list {members : List MetaObject} {item : TypeRef}
      (lists : object.Enumerates request.registry withDeprecated name members)
      (known : ∀ member ∈ members,
        member.Known request.registry ∧ member.typeName = item.typeName)
      (isList : type.nullable.listItem? = some item) (isSingle : item.nullable.listItem? = none) :
      Suited request withDeprecated object name type (.list (members.map some))

variable {request : Request} {schema : Schema} {object : MetaObject} {name : String}
  {withDeprecated : Bool} {type : TypeRef}

/-! ## Leaves -/

private theorem text_conforms (yields : schema.Yields request.registry)
    (isSingle : type.nullable.listItem? = none) (isString : type.typeName = "String")
    (text : String) (sets : List (List Selection)) :
    request.Conforms .none type sets (.string text) := by
  have listed : Scalar.all[0] ∈ Scalar.all ++ Meta.all :=
    List.mem_append_left _ (List.getElem_mem _)
  have found := yields.lookup_builtIn listed
  exact .scalar isSingle ((congrArg _ isString).trans found) rfl nofun

private theorem flag_conforms (yields : schema.Yields request.registry) (flag : Bool)
    (sets : List (List Selection)) :
    request.Conforms .none (Meta.required "Boolean") sets (.bool flag) := by
  have listed : Scalar.all[3] ∈ Scalar.all ++ Meta.all :=
    List.mem_append_left _ (List.getElem_mem _)
  have registered : request.registry.lookup? (Meta.required "Boolean").typeName = _ :=
    yields.lookup_builtIn listed
  exact .scalar rfl registered rfl nofun

private theorem kind_conforms (yields : schema.Yields request.registry) (kind : TypeKind)
    (sets : List (List Selection)) :
    request.Conforms .none (Meta.required "__TypeKind") sets (.string kind.text) := by
  have listed : Meta.typeKindType ∈ Scalar.all ++ Meta.all := by simp [Meta.all]
  have registered : request.registry.lookup? (Meta.required "__TypeKind").typeName = _ :=
    yields.lookup_builtIn listed
  refine .enum rfl registered rfl ?_
  cases kind <;> decide

private theorem locations_conform (yields : schema.Yields request.registry)
    (places : List DirectiveLocation) (sets : List (List Selection)) :
    request.Conforms .none (Meta.requiredList "__DirectiveLocation") sets
      (.array (places.map fun place => .string place.text)) := by
  have listed : Meta.directiveLocationType ∈ Scalar.all ++ Meta.all := by simp [Meta.all]
  have registered : request.registry.lookup? (Meta.required "__DirectiveLocation").typeName = _ :=
    yields.lookup_builtIn listed
  refine .items rfl fun json member => ?_
  rcases List.mem_map.mp member with ⟨place, _, rfl⟩
  refine .enum rfl registered rfl ?_
  cases place <;> decide

private theorem Suited.optional (yields : schema.Yields request.registry) {text : Option String}
    (tells : ∀ given, text = some given → object.Tells request.registry name (.string given))
    (lacks : text = none → object.Lacks request.registry name) :
    request.Suited withDeprecated object name (.named "String") (.optionalString text) := by
  cases text with
  | none => exact .null (lacks rfl) rfl
  | some given => exact .leaf (tells given rfl) (text_conforms yields rfl rfl given)

/-! ## Lists -/

private theorem exists_members {α : Type} {related : α → MetaObject → Prop} {items : List α}
    (each : ∀ item ∈ items, ∃ member, related item member) :
    ∃ members, List.Forall₂ related items members := by
  have : Nonempty MetaObject := ⟨.schema⟩
  choose! member related using each
  exact ⟨items.map member, List.forall₂_map_right_iff.mpr (List.forall₂_same.mpr related)⟩

private theorem Suited.enumerated {α : Type} {items : List α} {shown : α → MetaObject}
    {item : TypeRef}
    (lists : object.Enumerates request.registry withDeprecated name (items.map shown))
    (known : ∀ value ∈ items, (shown value).Known request.registry ∧
      (shown value).typeName = item.typeName)
    (isList : type.nullable.listItem? = some item) (isSingle : item.nullable.listItem? = none) :
    request.Suited withDeprecated object name type
      (.list (items.map fun value => some (shown value))) := by
  have composed : (items.map fun value => some (shown value)) = (items.map shown).map some :=
    List.map_map.symm
  rw [composed]
  refine .list lists (fun member listed => ?_) isList isSingle
  rcases List.mem_map.mp listed with ⟨value, isValue, rfl⟩
  exact known value isValue

private theorem Suited.inputs {definitions : List InputValueDefinition}
    (lists : object.Enumerates request.registry withDeprecated name
      ((visible withDeprecated InputValueDefinition.deprecation definitions).map .inputValue))
    (resolvable : ∀ definition ∈ definitions, request.registry.Resolvable definition.type)
    (isList : type.nullable.listItem? = some (Meta.required "__InputValue")) :
    request.Suited withDeprecated object name type (inputValues withDeprecated definitions) :=
  .enumerated lists
    (fun definition listed => ⟨resolvable definition (List.mem_of_mem_filter listed), rfl⟩) isList
    rfl

/-- What an object may have, it shows if it has it. -/
private theorem Suited.elim {α : Type} {content : Option α} {shown : α → MetaValue}
    (has : ∀ value, content = some value →
      request.Suited withDeprecated object name type (shown value))
    (lacks : content = none → object.Lacks request.registry name)
    (mayBeNull : type.isNonNull = false) :
    request.Suited withDeprecated object name type (content.elim .null shown) := by
  cases content with
  | none => exact .null (lacks rfl) mayBeNull
  | some value => exact has value rfl

/-- A list of what names or references stand for. -/
private theorem Suited.resolved {α : Type} {items : List α} {leads? : α → Option MetaObject}
    (related : α → MetaObject → Prop)
    (each : ∀ value ∈ items, ∃ member, related value member ∧ member.Known request.registry ∧
      member.typeName = "__Type")
    (leads : ∀ value member, related value member → leads? value = some member)
    (lists : ∀ members, List.Forall₂ related items members →
      object.Enumerates request.registry withDeprecated name members)
    (isList : type.nullable.listItem? = some (Meta.required "__Type")) :
    request.Suited withDeprecated object name type (.list (items.map leads?)) := by
  rcases exists_members each with ⟨members, listed⟩
  have mapped : items.map leads? = members.map some := by
    rw [← List.forall₂_eq_eq_eq, List.forall₂_map_left_iff, List.forall₂_map_right_iff]
    exact listed.imp fun value member related => leads value member related.1
  rw [mapped]
  refine .list (lists members (listed.imp fun _ _ related => related.1)) ?_ isList rfl
  intro member inside
  rcases exists_of_forall₂ listed inside with ⟨value, _, _, known, sameName⟩
  exact ⟨known, sameName⟩

/-! ## The meta types -/

/-- A root type that the schema may have. -/
private theorem Suited.root (closed : request.registry.Closed) (kind : OperationKind)
    (leads : ∀ root, request.registry.root? kind = some root →
      object.LeadsTo request.registry name (.type root))
    (lacks : request.registry.root? kind = none → object.Lacks request.registry name) :
    request.Suited withDeprecated object name (.named "__Type")
      (.object ((request.registry.root? kind).bind fun root =>
        named? request.registry root.name)) := by
  cases isRoot : request.registry.root? kind with
  | none => exact .missing (lacks isRoot) rfl
  | some root =>
      have found := closed.roots kind root isRoot
      rw [Option.bind_some, named?, found]
      exact .object (leads root isRoot) (Named.find?_mem found).1 rfl rfl

private theorem schemaField_suited (closed : request.registry.Closed) {definition : FieldDefinition}
    (declared : definition ∈ (Meta.schemaType.fields?).getD []) :
    request.Suited withDeprecated .schema definition.name definition.type
      (schemaField request.registry definition.name) := by
  simp only [Meta.schemaType, Meta.metaType, NamedType.fields?, Option.getD_some, List.mem_cons,
    List.not_mem_nil, or_false] at declared
  rcases declared with rfl | rfl | rfl | rfl | rfl | rfl
  · exact .null (lacks_description rfl) rfl
  · exact .enumerated ⟨rfl, rfl⟩ (fun type listed => ⟨listed, rfl⟩) rfl rfl
  · have found := closed.roots .query _ rfl
    have value : schemaField request.registry "queryType" =
        .object (some (.type request.registry.query)) :=
      congrArg (fun type => MetaValue.object (Option.map MetaObject.type type)) found
    exact value ▸ .object ⟨rfl, rfl⟩ (Named.find?_mem found).1 rfl rfl
  · refine .root closed .mutation (fun root isRoot => ⟨rfl, root, isRoot, rfl⟩) fun isNone => ?_
    refine ⟨fun _ => id, ?_, fun _ _ => id⟩
    rintro inner ⟨_, root, isRoot, _⟩
    cases isNone.symm.trans isRoot
  · refine .root closed .subscription (fun root isRoot => ⟨rfl, root, isRoot, rfl⟩)
      fun isNone => ?_
    refine ⟨fun _ => id, ?_, fun _ _ => id⟩
    rintro inner ⟨_, root, isRoot, _⟩
    cases isNone.symm.trans isRoot
  · exact .enumerated ⟨rfl, rfl⟩ (fun directive listed => ⟨listed, rfl⟩) rfl rfl

/-- The fields by which members say whether and why they are deprecated. -/
private theorem Suited.deprecation (yields : schema.Yields request.registry)
    {values : String → MetaValue}
    {definition : FieldDefinition} (declared : definition ∈ Meta.deprecationFields)
    {deprecation : Option String} (isMember : object.deprecation? = some deprecation)
    (flag : values "isDeprecated" = .leaf (.bool deprecation.isSome))
    (reason : values "deprecationReason" = .optionalString deprecation) :
    request.Suited withDeprecated object definition.name definition.type
      (values definition.name) := by
  simp only [Meta.deprecationFields, List.mem_cons, List.not_mem_nil, or_false] at declared
  rcases declared with rfl | rfl
  · refine flag ▸ .leaf ⟨deprecation, isMember, rfl⟩ (flag_conforms yields _)
  · refine reason ▸ .optional yields (fun given isGiven => ?_) fun isNone => ?_
    · exact ⟨given, isMember.trans (congrArg _ isGiven), rfl⟩
    · exact lacks_deprecationReason (isMember.trans (congrArg some isNone))

private theorem fieldField_suited (yields : schema.Yields request.registry)
    {own : FieldDefinition} (known : (MetaObject.field own).Known request.registry)
    {definition : FieldDefinition} (declared : definition ∈ (Meta.fieldType.fields?).getD []) :
    request.Suited withDeprecated (.field own) definition.name definition.type
      (fieldField request.registry withDeprecated own definition.name) := by
  simp only [Meta.fieldType, Meta.metaType, NamedType.fields?, Option.getD_some, List.mem_append,
    List.mem_cons, List.not_mem_nil, or_false] at declared
  rcases declared with (rfl | rfl | rfl | rfl) | isDeprecation
  · exact .leaf ⟨own.name, rfl, rfl⟩ (text_conforms yields rfl rfl own.name)
  · exact .optional yields (fun given isGiven => ⟨given, isGiven, rfl⟩) fun isNone =>
      lacks_description isNone
  · exact .inputs ⟨own.arguments, rfl, rfl⟩ known.2 rfl
  · rcases exists_means known.1 with ⟨inner, means, innerKnown, sameName⟩
    have value : fieldField request.registry withDeprecated own "type" = .object (some inner) :=
      congrArg MetaValue.object (ofRef?_of_means means)
    exact value ▸ .object ⟨own.type, rfl, means⟩ innerKnown rfl sameName
  · exact .deprecation yields isDeprecation rfl rfl rfl

private theorem inputValueField_suited (yields : schema.Yields request.registry)
    {own : InputValueDefinition} (known : (MetaObject.inputValue own).Known request.registry)
    {definition : FieldDefinition} (declared : definition ∈ (Meta.inputValueType.fields?).getD []) :
    request.Suited withDeprecated (.inputValue own) definition.name definition.type
      (inputValueField request.registry own definition.name) := by
  simp only [Meta.inputValueType, Meta.metaType, NamedType.fields?, Option.getD_some,
    List.mem_append, List.mem_cons, List.not_mem_nil, or_false] at declared
  rcases declared with (rfl | rfl | rfl | rfl) | isDeprecation
  · exact .leaf ⟨own.name, rfl, rfl⟩ (text_conforms yields rfl rfl own.name)
  · exact .optional yields (fun given isGiven => ⟨given, isGiven, rfl⟩) fun isNone =>
      lacks_description isNone
  · rcases exists_means known with ⟨inner, means, innerKnown, sameName⟩
    have value : inputValueField request.registry own "type" = .object (some inner) :=
      congrArg MetaValue.object (ofRef?_of_means means)
    exact value ▸ .object ⟨own.type, rfl, means⟩ innerKnown rfl sameName
  · refine .optional yields (fun given isGiven => ?_) fun isNone => ?_
    · rcases Option.map_eq_some_iff.mp isGiven with ⟨default, isDefault, isText⟩
      exact ⟨own, default, rfl, isDefault, congrArg Json.string isText.symm⟩
    · refine ⟨?_, fun _ => id, fun _ _ => id⟩
      rintro value ⟨definition, default, isOwn, isDefault, _⟩
      cases isOwn
      rw [isDefault] at isNone
      cases isNone
  · exact .deprecation yields isDeprecation rfl rfl rfl

private theorem enumValueField_suited (yields : schema.Yields request.registry)
    {own : EnumValueDefinition}
    {definition : FieldDefinition} (declared : definition ∈ (Meta.enumValueType.fields?).getD []) :
    request.Suited withDeprecated (.enumValue own) definition.name definition.type
      (enumValueField own definition.name) := by
  simp only [Meta.enumValueType, Meta.metaType, NamedType.fields?, Option.getD_some,
    List.mem_append, List.mem_cons, List.not_mem_nil, or_false] at declared
  rcases declared with (rfl | rfl) | isDeprecation
  · exact .leaf ⟨own.name, rfl, rfl⟩ (text_conforms yields rfl rfl own.name)
  · exact .optional yields (fun given isGiven => ⟨given, isGiven, rfl⟩) fun isNone =>
      lacks_description isNone
  · exact .deprecation yields isDeprecation rfl rfl rfl

private theorem directiveField_suited (yields : schema.Yields request.registry)
    (closed : request.registry.Closed) {own : DirectiveDefinition}
    (known : (MetaObject.directive own).Known request.registry) {definition : FieldDefinition}
    (declared : definition ∈ (Meta.directiveType.fields?).getD []) :
    request.Suited withDeprecated (.directive own) definition.name definition.type
      (directiveField withDeprecated own definition.name) := by
  simp only [Meta.directiveType, Meta.metaType, NamedType.fields?, Option.getD_some,
    List.mem_cons, List.not_mem_nil, or_false] at declared
  rcases declared with rfl | rfl | rfl | rfl | rfl
  · exact .leaf ⟨own.name, rfl, rfl⟩ (text_conforms yields rfl rfl own.name)
  · exact .optional yields (fun given isGiven => ⟨given, isGiven, rfl⟩) fun isNone =>
      lacks_description isNone
  · exact .leaf ⟨own, rfl, rfl⟩ (flag_conforms yields own.repeatable)
  · exact .leaf ⟨own, rfl, rfl⟩ (locations_conform yields own.locations)
  · exact .inputs ⟨own.arguments, rfl, rfl⟩ (closed.arguments own known) rfl

private theorem wrapperField_suited (yields : schema.Yields request.registry) {inner : TypeRef}
    {kind : TypeKind} (resolvable : request.registry.Resolvable inner)
    (isWrapper : object = .listOf inner ∧ kind = .list ∨
      object = .nonNullOf inner ∧ kind = .nonNull)
    {definition : FieldDefinition} (declared : definition ∈ (Meta.typeType.fields?).getD []) :
    request.Suited withDeprecated object definition.name definition.type
      (wrapperField request.registry kind inner definition.name) := by
  have isKind : object.kind? = some kind := by
    rcases isWrapper with ⟨rfl, rfl⟩ | ⟨rfl, rfl⟩ <;> rfl
  have isWrapped : object.wrapped? = some inner := by
    rcases isWrapper with ⟨rfl, rfl⟩ | ⟨rfl, rfl⟩ <;> rfl
  simp only [Meta.typeType, Meta.metaType, NamedType.fields?, Option.getD_some,
    List.mem_cons, List.not_mem_nil, or_false] at declared
  have notType : ∀ named, object ≠ .type named := by
    rintro named rfl
    cases isWrapped
  have noName : object.name? = none := by rcases isWrapper with ⟨rfl, _⟩ | ⟨rfl, _⟩ <;> rfl
  have noDescription : object.description? = none := by
    rcases isWrapper with ⟨rfl, _⟩ | ⟨rfl, _⟩ <;> rfl
  rcases declared with rfl | rfl | rfl | rfl | rfl | rfl | rfl | rfl | rfl | rfl
  · exact .leaf ⟨kind, isKind, rfl⟩ (kind_conforms yields kind)
  · exact .null (lacks_name noName) rfl
  · exact .null (lacks_description noDescription) rfl
  · exact .null (lacks_of_not_type notType (by decide)) rfl
  · exact .null (lacks_of_not_type notType (by decide)) rfl
  · exact .null (lacks_of_not_type notType (by decide)) rfl
  · exact .null (lacks_of_not_type notType (by decide)) rfl
  · exact .null (lacks_of_not_type notType (by decide)) rfl
  · exact .null (lacks_of_not_type notType (by decide)) rfl
  · rcases exists_means resolvable with ⟨target, means, known, sameName⟩
    have value : wrapperField request.registry kind inner "ofType" = .object (some target) :=
      congrArg MetaValue.object (ofRef?_of_means means)
    exact value ▸ .object ⟨inner, isWrapped, means⟩ known rfl sameName

/-- Only types that stand for others have possible types. -/
private theorem possibleTypes_suited (closed : request.registry.Closed) (named : NamedType)
    (isList : type.nullable.listItem? = some (Meta.required "__Type"))
    (mayBeNull : type.isNonNull = false) :
    request.Suited withDeprecated (.type named) "possibleTypes" type
      (typeField request.registry withDeprecated named "possibleTypes") := by
  have value : typeField request.registry withDeprecated named "possibleTypes" =
      if named.isAbstract then
        .list ((request.registry.possible named.name).map (named? request.registry))
      else .null :=
    rfl
  cases isAbstract : named.isAbstract with
  | false =>
      rw [isAbstract, if_neg Bool.false_ne_true] at value
      refine value ▸ .null ⟨fun _ => id, fun _ => id, ?_⟩ mayBeNull
      rintro _ members ⟨type, isType, isAlso, _⟩
      cases isType
      cases isAbstract.symm.trans isAlso
  | true =>
      rw [isAbstract, if_pos rfl] at value
      refine value ▸ .resolved (fun name member => ∃ possible,
          request.registry.lookup? name = some possible ∧ member = .type possible)
        (fun name listed => ?_) (fun name member related => ?_)
        (fun members listed => ⟨named, rfl, isAbstract, listed⟩) isList
      · rcases closed.possible _ name listed with ⟨possible, found⟩
        exact ⟨.type possible, ⟨possible, found, rfl⟩, (Named.find?_mem found).1, rfl⟩
      · rcases related with ⟨possible, found, rfl⟩
        exact congrArg (Option.map MetaObject.type) found

private theorem typeField_suited (yields : schema.Yields request.registry)
    (closed : request.registry.Closed) {named : NamedType}
    (known : (MetaObject.type named).Known request.registry) {definition : FieldDefinition}
    (declared : definition ∈ (Meta.typeType.fields?).getD []) :
    request.Suited withDeprecated (.type named) definition.name definition.type
      (typeField request.registry withDeprecated named definition.name) := by
  have resolvable : ∀ reference, named.Refers reference → request.registry.Resolvable reference :=
    closed.references named known
  simp only [Meta.typeType, Meta.metaType, NamedType.fields?, Option.getD_some,
    List.mem_cons, List.not_mem_nil, or_false] at declared
  rcases declared with rfl | rfl | rfl | rfl | rfl | rfl | rfl | rfl | rfl | rfl
  · exact .leaf ⟨named.kind, rfl, rfl⟩ (kind_conforms yields named.kind)
  · exact .leaf ⟨named.name, rfl, rfl⟩ (text_conforms yields rfl rfl named.name)
  · exact .optional yields (fun given isGiven => ⟨given, isGiven, rfl⟩) fun isNone =>
      lacks_description isNone
  · exact .optional yields (fun url isUrl => ⟨named, url, rfl, isUrl, rfl⟩) fun isNone =>
      ⟨fun _ => not_shown_of_none isNone, fun _ => id, fun _ _ => id⟩
  · refine .elim (fun definitions isFields => ?_) (fun isNone => ?_) rfl
    · refine .enumerated ⟨named, definitions, rfl, isFields, rfl⟩ ?_ rfl rfl
      intro definition isVisible
      have listed := List.mem_of_mem_filter isVisible
      exact ⟨⟨resolvable _ (.field isFields listed rfl), fun argument isArgument =>
        resolvable _ (.argument isFields listed isArgument rfl)⟩, rfl⟩
    · exact ⟨fun _ => id, fun _ => id, fun _ _ => not_shown_of_none isNone⟩
  · refine .elim (fun references declares => ?_) (fun isNone => ?_) rfl
    · refine .resolved (Means request.registry) (fun reference listed => ?_)
        (fun reference member means => ofRef?_of_means means)
        (fun members listed => ⟨named, references, rfl, declares, listed⟩) rfl
      exact exists_means (resolvable reference (.interface declares listed))
    · exact ⟨fun _ => id, fun _ => id, fun _ _ => not_shown_of_none isNone⟩
  · exact possibleTypes_suited closed named rfl rfl
  · refine .elim (fun definitions isEnum => ?_) (fun isNone => ?_) rfl
    · exact .enumerated ⟨named, definitions, rfl, isEnum, rfl⟩ (fun value listed => ⟨trivial, rfl⟩)
        rfl rfl
    · exact ⟨fun _ => id, fun _ => id, fun _ _ => not_shown_of_none isNone⟩
  · refine .elim (fun definitions isFields => ?_) (fun isNone => ?_) rfl
    · exact .inputs ⟨named, definitions, rfl, isFields, rfl⟩
        (fun definition listed => resolvable _ (.inputField isFields listed rfl)) rfl
    · exact ⟨fun _ => id, fun _ => id, fun _ _ => not_shown_of_none isNone⟩
  · exact .null (lacks_ofType rfl) rfl

theorem property_suited (yields : schema.Yields request.registry)
    (closed : request.registry.Closed) (known : object.Known request.registry)
    {definition : FieldDefinition}
    (declared : definition ∈ (object.metaType.fields?).getD []) :
    request.Suited withDeprecated object definition.name definition.type
      (object.property request.registry withDeprecated definition.name) := by
  cases object with
  | schema => exact schemaField_suited closed declared
  | type named => exact typeField_suited yields closed known declared
  | listOf item => exact wrapperField_suited yields known (.inl ⟨rfl, rfl⟩) declared
  | nonNullOf inner => exact wrapperField_suited yields known (.inr ⟨rfl, rfl⟩) declared
  | field own => exact fieldField_suited yields known declared
  | inputValue own => exact inputValueField_suited yields known declared
  | enumValue own => exact enumValueField_suited yields declared
  | directive own => exact directiveField_suited yields closed known declared

end Request

end GraphQL
