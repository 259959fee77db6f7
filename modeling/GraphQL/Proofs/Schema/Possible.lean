import GraphQL.Proofs.Schema.Registration

/-!
The objects that a type can be at runtime: an interface those that declare it, a union those that
it lists. An object type implements an interface if it has its fields, with types that can stand
for theirs and with arguments that take what is written for theirs.
-/

namespace GraphQL

/-- An object type is not abstract. -/
theorem NamedType.not_isAbstract {type : NamedType} (isObject : type.isObject = true) :
    ¬type.isAbstract = true := by
  intro isAbstract
  simp only [NamedType.isObject, NamedType.isAbstract] at isObject isAbstract
  cases shape : type.shape <;> simp [shape] at isObject isAbstract

theorem Registry.isObject_of_object? {registry : Registry} {object : NamedType} {name : String}
    (registered : registry.object? name = some object) :
    registry.lookup? name = some object ∧ object.isObject = true :=
  Option.filter_eq_some_iff.mp registered

namespace Schema

/-- An object type is one of those of an abstract type. -/
inductive Belongs (types : List NamedType) (objectName abstractName : String) : Prop
  | declares {object : NamedType} {shape : ObjectShape} {interface : TypeRef}
      (listed : object ∈ types) (isName : object.name = objectName)
      (isObject : object.shape = .object shape) (declared : interface ∈ shape.interfaces)
      (isInterface : interface.typeName = abstractName)
  | member {union : NamedType} {shape : UnionShape} {object : TypeRef} (listed : union ∈ types)
      (isUnionName : union.name = abstractName) (isUnion : union.shape = .union shape)
      (isMember : object ∈ shape.members) (isName : object.typeName = objectName)

private theorem mem_addPossible {possible : List (String × List String)}
    {abstractName objectName wanted name : String}
    (listed : name ∈ (Named.value? (addPossible possible abstractName objectName) wanted).getD []) :
    name ∈ (Named.value? possible wanted).getD [] ∨
      (wanted = abstractName ∧ name = objectName) := by
  simp only [addPossible, Named.value?_put] at listed
  split at listed
  · rename_i same
    rw [Option.getD_some] at listed
    split at listed
    · exact .inl (same ▸ listed)
    · rcases List.mem_append.mp listed with before | added
      · exact .inl (same ▸ before)
      · exact .inr ⟨same.symm, List.mem_singleton.mp added⟩
  · exact .inl listed

/-- Every entry is there because an object type declares an interface, or a union lists it. -/
private def Justified (types : List NamedType) (possible : List (String × List String)) : Prop :=
  ∀ abstractName objectName, objectName ∈ (Named.value? possible abstractName).getD [] →
    Belongs types objectName abstractName

private theorem Justified.add {types : List NamedType} {possible : List (String × List String)}
    {abstractName objectName : String} (justified : Justified types possible)
    (belongs : Belongs types objectName abstractName) :
    Justified types (addPossible possible abstractName objectName) := by
  intro wanted name listed
  rcases mem_addPossible listed with before | ⟨sameAbstract, sameObject⟩
  · exact justified wanted name before
  · rw [sameAbstract, sameObject]
    exact belongs

private theorem justified_possibleTypes (types : List NamedType) :
    Justified types (possibleTypes types) := by
  rw [possibleTypes]
  apply List.foldlRecOn
  · intro abstractName objectName listed
    simp [Named.value?, Named.find?] at listed
  · intro possible justified type listed
    split
    · rename_i shape isObject
      apply List.foldlRecOn (motive := Justified types) _ _ justified
      exact fun before earlier interface declared =>
        earlier.add (.declares listed rfl isObject declared rfl)
    · rename_i shape isUnion
      apply List.foldlRecOn (motive := Justified types) _ _ justified
      exact fun before earlier member isMember =>
        earlier.add (.member listed rfl isUnion isMember rfl)
    · exact justified

/-- An object type is listed as a possible type of an abstract type. -/
def Lists (objectName abstractName : String) (possible : List (String × List String)) : Prop :=
  objectName ∈ (Named.value? possible abstractName).getD []

private theorem Lists.add {possible : List (String × List String)} {wanted name : String}
    (lists : Lists name wanted possible) (abstractName objectName : String) :
    Lists name wanted (addPossible possible abstractName objectName) := by
  rw [Lists, addPossible, Named.value?_put]
  by_cases same : abstractName = wanted
  · subst same
    rw [if_pos rfl, Option.getD_some]
    split
    · exact lists
    · exact List.mem_append_left _ lists
  · rwa [if_neg same]

private theorem lists_addPossible (possible : List (String × List String))
    (abstractName objectName : String) :
    Lists objectName abstractName (addPossible possible abstractName objectName) := by
  rw [Lists, addPossible, Named.value?_put, if_pos rfl, Option.getD_some]
  split
  · rename_i known
    exact List.contains_iff_mem.mp known
  · exact List.mem_append_right _ List.mem_cons_self

private theorem foldl_brings {α β : Type} (holds : β → Prop) {step : β → α → β} {items : List α}
    (brings : ∃ item ∈ items, ∀ state, holds (step state item))
    (kept : ∀ state other, holds state → holds (step state other)) (state : β) :
    holds (items.foldl step state) := by
  rcases brings with ⟨item, listed, brings⟩
  have stays : ∀ (rest : List α) (state : β), holds state → holds (rest.foldl step state) := by
    intro rest
    induction rest with
    | nil => exact fun _ held => held
    | cons head tail induction => exact fun state held => induction _ (kept state head held)
  induction items generalizing state with
  | nil => cases listed
  | cons head tail induction =>
      rcases List.mem_cons.mp listed with equal | later
      · exact stays tail _ (equal ▸ brings state)
      · exact induction _ later

/-- Object types are possible types of just the types that they belong to. -/
theorem lists_possibleTypes {types : List NamedType} {objectName abstractName : String} :
    Lists objectName abstractName (possibleTypes types) ↔
      Belongs types objectName abstractName := by
  refine ⟨justified_possibleTypes types abstractName objectName, fun belongs => ?_⟩
  refine foldl_brings (Lists objectName abstractName) ?brings ?kept []
  case brings =>
    cases belongs with
    | @declares object shape interface listed isName isObject declared isInterface =>
        refine ⟨object, listed, fun possible => ?_⟩
        simp only [isObject]
        refine foldl_brings (Lists objectName abstractName)
          ⟨interface, declared, fun before => ?_⟩ (fun before other known => known.add _ _) possible
        rw [isName, isInterface]
        exact lists_addPossible before abstractName objectName
    | @member union shape object listed isUnionName isUnion isMember isName =>
        refine ⟨union, listed, fun possible => ?_⟩
        simp only [isUnion]
        refine foldl_brings (Lists objectName abstractName)
          ⟨object, isMember, fun before => ?_⟩ (fun before other known => known.add _ _) possible
        rw [isUnionName, isName]
        exact lists_addPossible before abstractName objectName
  case kept =>
    intro possible type lists
    split
    · apply List.foldlRecOn (motive := Lists objectName abstractName) _ _ lists
      exact fun before known interface declared => known.add _ _
    · apply List.foldlRecOn (motive := Lists objectName abstractName) _ _ lists
      exact fun before known member isMember => known.add _ _
    · exact lists

theorem Belongs.mono {types others : List NamedType} {objectName abstractName : String}
    (subset : types ⊆ others) (belongs : Belongs types objectName abstractName) :
    Belongs others objectName abstractName := by
  cases belongs with
  | declares listed isName isObject declared isInterface =>
      exact .declares (subset listed) isName isObject declared isInterface
  | member listed isUnionName isUnion isMember isName =>
      exact .member (subset listed) isUnionName isUnion isMember isName

namespace Yields

variable {schema : Schema} {registry : Registry} {type object : NamedType}

theorem lookup_of_mem (yields : schema.Yields registry) (listed : type ∈ registry.types) :
    registry.lookup? type.name = some type :=
  Named.find?_of_mem yields.distinct listed

private theorem belongs_of_possible (yields : schema.Yields registry) {objectName : String}
    (isPossible : registry.isPossible type objectName = true) :
    Belongs registry.types objectName type.name := by
  apply justified_possibleTypes registry.types
  simpa [Registry.isPossible, Registry.possible, yields.possible] using isPossible

/-- Whatever belongs to an abstract type is an object type. -/
theorem object_of_belongs (yields : schema.Yields registry) {objectName abstractName : String}
    (belongs : Belongs registry.types objectName abstractName) :
    ∃ object, registry.object? objectName = some object := by
  cases belongs with
  | @declares object shape interface listed isName isObject declared isInterface =>
      refine ⟨object, Option.filter_eq_some_iff.mpr ⟨?_, by simp [NamedType.isObject, isObject]⟩⟩
      rw [← isName]
      exact yields.lookup_of_mem listed
  | @member union shape reference listed isUnionName isUnion isMember isName =>
      have sound := yields.checked union listed
      rw [typeProblem?, isUnion] at sound
      have known := List.findSome?_eq_none_iff.mp sound reference isMember
      rcases (Option.any_eq_true _ _).mp (by simpa [memberProblem?] using known) with
        ⟨object, found, isObject⟩
      exact ⟨object, Option.filter_eq_some_iff.mpr ⟨isName ▸ found, isObject⟩⟩

/-- Only object types are possible types. -/
theorem object_of_possible (yields : schema.Yields registry) {objectName : String}
    (isPossible : registry.isPossible type objectName = true) :
    ∃ object, registry.object? objectName = some object :=
  yields.object_of_belongs (yields.belongs_of_possible isPossible)

/-- A possible type of an interface declares it. -/
theorem declares_of_possible (yields : schema.Yields registry) {interface : InterfaceShape}
    (isInterface : type.shape = .interface interface)
    (known : registry.lookup? type.name = some type)
    (isObject : registry.object? object.name = some object)
    (isPossible : registry.isPossible type object.name = true) :
    object ∈ registry.types ∧ ∃ shape ∈ object.object?, ∃ reference ∈ shape.interfaces,
      registry.resolve? reference = some type := by
  have found := (Option.filter_eq_some_iff.mp isObject).1
  cases yields.belongs_of_possible isPossible with
  | @declares other shape reference listed isName isShape declared isReference =>
      have same : other = object := by
        have foundOther := yields.lookup_of_mem listed
        rw [isName, found] at foundOther
        exact (Option.some.inj foundOther).symm
      subst same
      refine ⟨listed, shape, by simp [NamedType.object?, isShape], reference, declared, ?_⟩
      rw [Registry.resolve?, isReference, known]
  | @member union shape reference listed isUnionName isUnion isMember isName =>
      have foundUnion := yields.lookup_of_mem listed
      rw [isUnionName, known, Option.some.injEq] at foundUnion
      rw [foundUnion, isUnion] at isInterface
      cases isInterface

end Yields

end Schema

/-- An argument takes what is written for others: one of its name has the same type, and it is
required only if that one is. -/
def InputValueDefinition.takes (declared : List InputValueDefinition)
    (own : InputValueDefinition) : Bool :=
  match Named.find? declared own.name with
  | some other => own.type.same other.type && (!own.isRequired || other.isRequired)
  | none => !own.isRequired

namespace Registry

/-- Every object type has the fields of the interfaces that it declares, with types that can stand
for theirs. -/
def FieldsImplemented (registry : Registry) : Prop :=
  ∀ object ∈ registry.types, ∀ shape ∈ object.object?, ∀ reference ∈ shape.interfaces,
    ∀ interface ∈ registry.resolve? reference, ∀ fields ∈ interface.fields?,
      ∀ definition ∈ fields, ∃ own ∈ object.field? definition.name,
        registry.isSubType own.type definition.type = true

instance (registry : Registry) : Decidable registry.FieldsImplemented :=
  inferInstanceAs (Decidable (∀ object ∈ registry.types, ∀ shape ∈ object.object?,
    ∀ reference ∈ shape.interfaces, ∀ interface ∈ registry.resolve? reference,
      ∀ fields ∈ interface.fields?, ∀ definition ∈ fields,
        ∃ own ∈ object.field? definition.name,
          registry.isSubType own.type definition.type = true))

/-- What object types have of the fields of the interfaces that they declare, they have with types
that can stand for theirs. -/
def FieldsNarrow (registry : Registry) : Prop :=
  ∀ object ∈ registry.types, ∀ shape ∈ object.object?, ∀ reference ∈ shape.interfaces,
    ∀ interface ∈ registry.resolve? reference, ∀ fields ∈ interface.fields?,
      ∀ definition ∈ fields, ∀ own ∈ object.field? definition.name,
        registry.isSubType own.type definition.type = true

instance (registry : Registry) : Decidable registry.FieldsNarrow :=
  inferInstanceAs (Decidable (∀ object ∈ registry.types, ∀ shape ∈ object.object?,
    ∀ reference ∈ shape.interfaces, ∀ interface ∈ registry.resolve? reference,
      ∀ fields ∈ interface.fields?, ∀ definition ∈ fields,
        ∀ own ∈ object.field? definition.name,
          registry.isSubType own.type definition.type = true))

theorem FieldsImplemented.narrow {registry : Registry}
    (implemented : registry.FieldsImplemented) : registry.FieldsNarrow := by
  intro object listed shape isShape reference declared interface resolved fields isFields
    definition member own isOwn
  rcases implemented object listed shape isShape reference declared interface resolved fields
    isFields definition member with ⟨other, isOther, isSub⟩
  exact Option.some.inj (isOther.symm.trans isOwn) ▸ isSub

/-- What is written for the arguments of an interface's field, the arguments take that the field has
on the object types that declare the interface. -/
def ArgumentsTaken (registry : Registry) : Prop :=
  ∀ object ∈ registry.types, ∀ shape ∈ object.object?, ∀ reference ∈ shape.interfaces,
    ∀ interface ∈ registry.resolve? reference, ∀ fields ∈ interface.fields?,
      ∀ definition ∈ fields, ∀ own ∈ registry.field? object definition.name,
        own.arguments.all (InputValueDefinition.takes definition.arguments) = true

instance (registry : Registry) : Decidable registry.ArgumentsTaken :=
  inferInstanceAs (Decidable (∀ object ∈ registry.types, ∀ shape ∈ object.object?,
    ∀ reference ∈ shape.interfaces, ∀ interface ∈ registry.resolve? reference,
      ∀ fields ∈ interface.fields?, ∀ definition ∈ fields,
        ∀ own ∈ registry.field? object definition.name,
          own.arguments.all (InputValueDefinition.takes definition.arguments) = true))

variable {schema : Schema} {registry : Registry} {type object : NamedType}

/-- A field of an interface that an object type declares. -/
def Inherits (registry : Registry) (object : NamedType) (definition : FieldDefinition) : Prop :=
  object ∈ registry.types ∧ ∃ shape ∈ object.object?, ∃ reference ∈ shape.interfaces,
    ∃ interface ∈ registry.resolve? reference, ∃ fields ∈ interface.fields?, definition ∈ fields

/-- Whatever is selected on an abstract type, its possible types inherit. -/
theorem inherits_of_possible (yields : schema.Yields registry)
    (known : registry.lookup? type.name = some type) (isAbstract : type.isAbstract = true)
    (isObject : registry.object? object.name = some object)
    (isPossible : registry.isPossible type object.name = true) {name : String}
    {definition : FieldDefinition} (isField : type.field? name = some definition) :
    registry.Inherits object definition := by
  rcases Option.bind_eq_some_iff.mp isField with ⟨fields, isFields, found⟩
  cases shape : type.shape with
  | interface interface =>
      rcases yields.declares_of_possible shape known isObject isPossible with
        ⟨listed, own, isOwn, reference, declared, resolved⟩
      exact ⟨listed, own, isOwn, reference, declared, type, resolved, fields, isFields,
        (Named.find?_mem found).1⟩
  | union union => simp [NamedType.fields?, shape] at isFields
  | _ => simp [NamedType.isAbstract, shape] at isAbstract

theorem FieldsImplemented.field (implemented : registry.FieldsImplemented)
    {definition : FieldDefinition} (inherits : registry.Inherits object definition) :
    ∃ own, object.field? definition.name = some own := by
  rcases inherits with
    ⟨listed, shape, isShape, reference, declared, interface, resolved, fields, isFields, member⟩
  rcases implemented object listed shape isShape reference declared interface resolved fields
    isFields definition member with ⟨own, isOwn, _⟩
  exact ⟨own, isOwn⟩

theorem FieldsNarrow.field (narrow : registry.FieldsNarrow) {own definition : FieldDefinition}
    (inherits : registry.Inherits object definition)
    (isOwn : object.field? definition.name = some own) :
    registry.isSubType own.type definition.type = true := by
  rcases inherits with
    ⟨listed, shape, isShape, reference, declared, interface, resolved, fields, isFields, member⟩
  exact narrow object listed shape isShape reference declared interface resolved fields isFields
    definition member own isOwn

theorem ArgumentsTaken.field (taken : registry.ArgumentsTaken) {own definition : FieldDefinition}
    (inherits : registry.Inherits object definition)
    (isOwn : registry.field? object definition.name = some own) :
    ∀ argument ∈ own.arguments, argument.takes definition.arguments = true := by
  rcases inherits with
    ⟨listed, shape, isShape, reference, declared, interface, resolved, fields, isFields, member⟩
  exact List.all_eq_true.mp (taken object listed shape isShape reference declared interface
    resolved fields isFields definition member own isOwn)

/-- Inside all wrappers a subtype is the same type, or a possible type of an abstract one. -/
theorem isNamedSubType_of_isSubType {sub super : TypeRef}
    (isSub : registry.isSubType sub super = true) :
    sub.typeName = super.typeName ∨ ∃ superType subType,
      registry.resolve? super = some superType ∧ registry.resolve? sub = some subType ∧
        superType.isAbstract = true ∧ registry.isPossible superType subType.name = true := by
  have ofNamed : ∀ {sub super : TypeRef}, registry.isNamedSubType sub super = true →
      sub.typeName = super.typeName ∨ ∃ superType subType,
        registry.resolve? super = some superType ∧ registry.resolve? sub = some subType ∧
          superType.isAbstract = true ∧ registry.isPossible superType subType.name = true := by
    intro sub super isNamed
    rw [isNamedSubType] at isNamed
    split at isNamed
    · rename_i same
      exact .inl same
    · split at isNamed
      · rename_i superType subType isSuper isSub
        rw [Bool.and_eq_true] at isNamed
        exact .inr ⟨superType, subType, isSuper, isSub, isNamed⟩
      · cases isNamed
  fun_induction isSubType registry sub super with
  | case1 sub super induction => exact induction isSub
  | case2 sub super _ induction => exact induction isSub
  | case3 => cases isSub
  | case4 sub super induction => exact induction isSub
  | case5 => cases isSub
  | case6 => cases isSub
  | case7 => exact ofNamed isSub

end Registry

end GraphQL
