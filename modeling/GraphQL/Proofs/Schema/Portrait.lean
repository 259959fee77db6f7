import GraphQL.Proofs.Schema.Coherence
import GraphQL.Schema.Description

/-!
What introspection owes to a registry, field by field and apart from how it is computed: what a meta
object says of itself, which object it leads to, and which objects it lists, in order. In a registry
that was built every reference leads somewhere, so that nothing is missing.
-/

namespace GraphQL

/-- How many lists and non-null marks are around a type. -/
def TypeRef.wrappers : TypeRef → Nat
  | .list item => item.wrappers + 1
  | .nonNull inner => inner.wrappers + 1
  | _ => 0

namespace MetaObject

/-! ## What meta objects have in common -/

/-- The meta type of an object. -/
def metaType : MetaObject → NamedType
  | .schema => Meta.schemaType
  | .type _ => Meta.typeType
  | .listOf _ => Meta.typeType
  | .nonNullOf _ => Meta.typeType
  | .field _ => Meta.fieldType
  | .inputValue _ => Meta.inputValueType
  | .enumValue _ => Meta.enumValueType
  | .directive _ => Meta.directiveType

theorem metaType_name (object : MetaObject) : object.metaType.name = object.typeName := by
  cases object <;> rfl

theorem metaType_mem (object : MetaObject) : object.metaType ∈ Meta.all := by
  cases object <;> simp [metaType, Meta.all]

def kind? : MetaObject → Option TypeKind
  | .type named => some named.kind
  | .listOf _ => some .list
  | .nonNullOf _ => some .nonNull
  | _ => none

def name? : MetaObject → Option String
  | .type named => some named.name
  | .field definition => some definition.name
  | .inputValue definition => some definition.name
  | .enumValue definition => some definition.name
  | .directive definition => some definition.name
  | _ => none

def description? : MetaObject → Option String
  | .type named => named.description
  | .field definition => definition.description
  | .inputValue definition => definition.description
  | .enumValue definition => definition.description
  | .directive definition => definition.description
  | _ => none

/-- Whether a member of a type is deprecated, and the reason if it is. -/
def deprecation? : MetaObject → Option (Option String)
  | .field definition => some definition.deprecation
  | .inputValue definition => some definition.deprecation
  | .enumValue definition => some definition.deprecation
  | _ => none

/-- The type of a field or of an input value. -/
def reference? : MetaObject → Option TypeRef
  | .field definition => some definition.type
  | .inputValue definition => some definition.type
  | _ => none

/-- The type inside of a wrapper. -/
def wrapped? : MetaObject → Option TypeRef
  | .listOf item => some item
  | .nonNullOf inner => some inner
  | _ => none

def arguments? : MetaObject → Option (List InputValueDefinition)
  | .field definition => some definition.arguments
  | .directive definition => some definition.arguments
  | _ => none

/-! ## What introspection is to show -/

/-- The object that stands for a type as it is referred to, with its wrappers. -/
inductive Means (registry : Registry) : TypeRef → MetaObject → Prop
  | list {item : TypeRef} : Means registry (.list item) (.listOf item)
  | nonNull {inner : TypeRef} : Means registry (.nonNull inner) (.nonNullOf inner)
  | named {name : String} {type : NamedType} (found : registry.lookup? name = some type) :
      Means registry (.named name) (.type type)
  | direct {target : Instance} {type : NamedType}
      (found : registry.lookup? target.name = some type) :
      Means registry (.direct target) (.type type)
  | deferred {target : Instance} {type : NamedType}
      (found : registry.lookup? target.name = some type) :
      Means registry (.deferred target) (.type type)

/-- What an object tells of itself in a field. -/
def Tells (registry : Registry) (object : MetaObject) (name : String) (value : Json) : Prop :=
  match name with
  | "kind" => ∃ kind, object.kind? = some kind ∧ value = .string kind.text
  | "name" => ∃ own, object.name? = some own ∧ value = .string own
  | "description" => ∃ text, object.description? = some text ∧ value = .string text
  | "specifiedByURL" => ∃ type url, object = .type type ∧ specifiedBy? type = some url ∧
      value = .string url
  | "isDeprecated" => ∃ deprecation, object.deprecation? = some deprecation ∧
      value = .bool deprecation.isSome
  | "deprecationReason" => ∃ reason, object.deprecation? = some (some reason) ∧
      value = .string reason
  | "defaultValue" => ∃ definition default, object = .inputValue definition ∧
      definition.default = some default ∧
      value = .string (registry.printInput definition.type default)
  | "isRepeatable" => ∃ definition, object = .directive definition ∧
      value = .bool definition.repeatable
  | "locations" => ∃ definition, object = .directive definition ∧
      value = .array (definition.locations.map fun place => .string place.text)
  | _ => False

/-- The object that an object leads to in a field. -/
def LeadsTo (registry : Registry) (object : MetaObject) (name : String) (inner : MetaObject) :
    Prop :=
  match name with
  | "queryType" => object = .schema ∧ inner = .type registry.query
  | "mutationType" => object = .schema ∧ ∃ type, registry.mutation = some type ∧ inner = .type type
  | "subscriptionType" =>
      object = .schema ∧ ∃ type, registry.subscription = some type ∧ inner = .type type
  | "type" => ∃ reference, object.reference? = some reference ∧ Means registry reference inner
  | "ofType" => ∃ reference, object.wrapped? = some reference ∧ Means registry reference inner
  | _ => False

/-- The objects that an object lists in a field: those of the registry in order, without deprecated
ones unless they are asked for. -/
def Enumerates (registry : Registry) (withDeprecated : Bool) (object : MetaObject) (name : String)
    (members : List MetaObject) : Prop :=
  match name with
  | "types" => object = .schema ∧ members = registry.types.map .type
  | "directives" => object = .schema ∧ members = registry.directives.map .directive
  | "fields" => ∃ type definitions, object = .type type ∧ type.fields? = some definitions ∧
      members = (visible withDeprecated FieldDefinition.deprecation definitions).map .field
  | "interfaces" => ∃ type references, object = .type type ∧ type.interfaces? = some references ∧
      List.Forall₂ (Means registry) references members
  | "possibleTypes" => ∃ type, object = .type type ∧ type.isAbstract = true ∧
      List.Forall₂ (fun name member => ∃ possible, registry.lookup? name = some possible ∧
        member = .type possible) (registry.possible type.name) members
  | "enumValues" => ∃ type definitions, object = .type type ∧ enumValues? type = some definitions ∧
      members = (visible withDeprecated EnumValueDefinition.deprecation definitions).map .enumValue
  | "inputFields" => ∃ type definitions, object = .type type ∧
      type.inputFields? = some definitions ∧
      members = (visible withDeprecated InputValueDefinition.deprecation definitions).map
        .inputValue
  | "args" => ∃ definitions, object.arguments? = some definitions ∧
      members = (visible withDeprecated InputValueDefinition.deprecation definitions).map
        .inputValue
  | _ => False

/-- An object has nothing to show in a field. -/
structure Lacks (registry : Registry) (object : MetaObject) (name : String) : Prop where
  tells : ∀ value, ¬object.Tells registry name value
  leads : ∀ inner, ¬object.LeadsTo registry name inner
  lists : ∀ withDeprecated members, ¬object.Enumerates registry withDeprecated name members

section

variable {registry : Registry} {object : MetaObject} {name : String}

theorem lacks_name (isNone : object.name? = none) : object.Lacks registry "name" := by
  refine ⟨?_, fun _ => id, fun _ _ => id⟩
  rintro value ⟨own, isOwn, _⟩
  rw [isNone] at isOwn
  cases isOwn

theorem lacks_description (isNone : object.description? = none) :
    object.Lacks registry "description" := by
  refine ⟨?_, fun _ => id, fun _ _ => id⟩
  rintro value ⟨text, isText, _⟩
  rw [isNone] at isText
  cases isText

theorem lacks_deprecationReason (isMember : object.deprecation? = some none) :
    object.Lacks registry "deprecationReason" := by
  refine ⟨?_, fun _ => id, fun _ _ => id⟩
  rintro value ⟨reason, isReason, _⟩
  rw [isMember] at isReason
  cases isReason

theorem lacks_ofType (isNone : object.wrapped? = none) : object.Lacks registry "ofType" := by
  refine ⟨fun _ => id, ?_, fun _ _ => id⟩
  rintro inner ⟨reference, isWrapped, _⟩
  rw [isNone] at isWrapped
  cases isWrapped

/-- A type does not show what it does not have. -/
theorem not_shown_of_none {α : Type} {named : NamedType} {content : NamedType → Option α}
    {shown : NamedType → α → Prop} (isNone : content named = none) :
    ¬∃ other inside, MetaObject.type named = .type other ∧ content other = some inside ∧
      shown other inside := by
  rintro ⟨other, inside, isSame, isInside, _⟩
  cases isSame
  cases isNone.symm.trans isInside

/-- Only types without wrappers have members, interfaces and the like. -/
theorem lacks_of_not_type (notType : ∀ named, object ≠ .type named)
    (ofTypes : name ∈ ["specifiedByURL", "fields", "interfaces", "possibleTypes", "enumValues",
      "inputFields"]) : object.Lacks registry name := by
  simp only [List.mem_cons, List.not_mem_nil, or_false] at ofTypes
  rcases ofTypes with rfl | rfl | rfl | rfl | rfl | rfl
  · exact ⟨fun value ⟨named, _, isType, _⟩ => notType named isType, fun _ => id, fun _ _ => id⟩
  · exact ⟨fun _ => id, fun _ => id, fun _ _ ⟨named, _, isType, _⟩ => notType named isType⟩
  · exact ⟨fun _ => id, fun _ => id, fun _ _ ⟨named, _, isType, _⟩ => notType named isType⟩
  · exact ⟨fun _ => id, fun _ => id, fun _ _ ⟨named, isType, _⟩ => notType named isType⟩
  · exact ⟨fun _ => id, fun _ => id, fun _ _ ⟨named, _, isType, _⟩ => notType named isType⟩
  · exact ⟨fun _ => id, fun _ => id, fun _ _ ⟨named, _, isType, _⟩ => notType named isType⟩

end

/-! ## Known objects -/

/-- An object that shows what a registry has. -/
def Known (registry : Registry) : MetaObject → Prop
  | .type named => named ∈ registry.types
  | .listOf item => registry.Resolvable item
  | .nonNullOf inner => registry.Resolvable inner
  | .field definition => registry.Resolvable definition.type ∧
      ∀ argument ∈ definition.arguments, registry.Resolvable argument.type
  | .inputValue definition => registry.Resolvable definition.type
  | .directive definition => definition ∈ registry.directives
  | .schema => True
  | .enumValue _ => True

variable {registry : Registry}

theorem ofRef?_of_means {reference : TypeRef} {inner : MetaObject}
    (means : Means registry reference inner) : ofRef? registry reference = some inner := by
  cases means with
  | list => rfl
  | nonNull => rfl
  | named found => exact congrArg (Option.map MetaObject.type) found
  | direct found => exact congrArg (Option.map MetaObject.type) found
  | deferred found => exact congrArg (Option.map MetaObject.type) found

/-- A reference to a registered type leads to a known object. -/
theorem exists_means {reference : TypeRef} (resolvable : registry.Resolvable reference) :
    ∃ inner, Means registry reference inner ∧ inner.Known registry ∧ inner.typeName = "__Type" := by
  cases reference with
  | list item => exact ⟨_, .list, resolvable, rfl⟩
  | nonNull inner => exact ⟨_, .nonNull, resolvable, rfl⟩
  | named name =>
      rcases resolvable with ⟨type, found⟩
      exact ⟨_, .named found, (Named.find?_mem found).1, rfl⟩
  | direct target =>
      rcases resolvable with ⟨type, found⟩
      exact ⟨_, .direct found, (Named.find?_mem found).1, rfl⟩
  | deferred target =>
      rcases resolvable with ⟨type, found⟩
      exact ⟨_, .deferred found, (Named.find?_mem found).1, rfl⟩

/-- A reference that stands for a known object is to a registered type. -/
theorem Means.resolvable {reference : TypeRef} {inner : MetaObject}
    (means : Means registry reference inner) (known : inner.Known registry) :
    registry.Resolvable reference := by
  cases means with
  | list => exact known
  | nonNull => exact known
  | named found => exact ⟨_, found⟩
  | direct found => exact ⟨_, found⟩
  | deferred found => exact ⟨_, found⟩

end MetaObject

end GraphQL
