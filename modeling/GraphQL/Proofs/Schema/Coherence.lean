import GraphQL.Proofs.Schema.Acceptance

/-!
Registries are closed and coherent. Every reference that a registered type or a directive makes
resolves to a registered type, and one that means an instance resolves to that very instance: an
instance of the same name that was registered before it would have failed the build. So names can
stand for instances wherever a registry is used.
-/

namespace GraphQL

/-- A reference that a type makes, by one of its members. -/
inductive NamedType.Refers (type : NamedType) (reference : TypeRef) : Prop
  | interface {references : List TypeRef} (declared : type.interfaces? = some references)
      (listed : reference ∈ references)
  | member {shape : UnionShape} (isUnion : type.shape = .union shape)
      (listed : reference ∈ shape.members)
  | field {fields : List FieldDefinition} {field : FieldDefinition}
      (isFields : type.fields? = some fields) (listed : field ∈ fields)
      (isType : field.type = reference)
  | argument {fields : List FieldDefinition} {field : FieldDefinition}
      {argument : InputValueDefinition} (isFields : type.fields? = some fields)
      (listed : field ∈ fields) (isArgument : argument ∈ field.arguments)
      (isType : argument.type = reference)
  | inputField {fields : List InputValueDefinition} {field : InputValueDefinition}
      (isFields : type.inputFields? = some fields) (listed : field ∈ fields)
      (isType : field.type = reference)

namespace NamedType

variable {type : NamedType} {reference : TypeRef}

private theorem mem_references_of_interface {references : List TypeRef}
    (declared : type.interfaces? = some references) (listed : reference ∈ references) :
    (reference, type.name) ∈ type.references := by
  rw [interfaces?] at declared
  split at declared
  · rename_i shape isObject
    cases declared
    simp only [NamedType.references, isObject]
    exact List.mem_append_left _ (List.mem_map_of_mem listed)
  · rename_i shape isInterface
    cases declared
    simp only [NamedType.references, isInterface]
    exact List.mem_append_left _ (List.mem_map_of_mem listed)
  · cases declared

private theorem mem_references_of_field {fields : List FieldDefinition} {field : FieldDefinition}
    (isFields : type.fields? = some fields) (listed : field ∈ fields)
    {entry : TypeRef × String} (made : entry ∈ fieldReferences type.name field) :
    entry ∈ type.references := by
  rw [fields?] at isFields
  split at isFields
  · rename_i shape isObject
    cases isFields
    simp only [NamedType.references, isObject]
    exact List.mem_append_right _ (List.mem_flatMap.mpr ⟨field, listed, made⟩)
  · rename_i shape isInterface
    cases isFields
    simp only [NamedType.references, isInterface]
    exact List.mem_append_right _ (List.mem_flatMap.mpr ⟨field, listed, made⟩)
  · cases isFields

private theorem Refers.followed (refers : type.Refers reference) :
    ∃ place, (reference, place) ∈ type.references := by
  cases refers with
  | interface declared listed => exact ⟨_, mem_references_of_interface declared listed⟩
  | @member shape isUnion listed =>
      refine ⟨type.name, ?_⟩
      simp only [NamedType.references, isUnion]
      exact List.mem_map_of_mem listed
  | field isFields listed isType =>
      subst isType
      exact ⟨_, mem_references_of_field isFields listed List.mem_cons_self⟩
  | argument isFields listed isArgument isType =>
      subst isType
      exact ⟨_, mem_references_of_field isFields listed
        (List.mem_cons_of_mem _ (List.mem_map_of_mem isArgument))⟩
  | @inputField fields field isFields listed isType =>
      rw [inputFields?] at isFields
      split at isFields
      · rename_i shape isInput
        cases isFields
        refine ⟨s!"{type.name}.{field.name}", ?_⟩
        simp only [NamedType.references, isInput]
        exact List.mem_map.mpr ⟨field, listed, by rw [isType]⟩
      · cases isFields

end NamedType

namespace Schema

variable {schema : Schema}

/-! ## Registration -/

/-- A reference has been followed: its name is noted for the checks, or its instance has its
name. -/
structure Met (progress : Progress) (reference : TypeRef) : Prop where
  name : ∀ name, reference.innermost = .named name → name ∈ Named.names progress.names
  target : ∀ target, reference.target? = some target → Registered progress target

private theorem Met.of_name {progress : Progress} {reference : TypeRef} {name : String}
    (isName : reference.innermost = .named name) (noted : name ∈ Named.names progress.names) :
    Met progress reference := by
  refine ⟨fun other isOther => ?_, fun target isTarget => ?_⟩
  · cases isName.symm.trans isOther
    exact noted
  · cases (TypeRef.target?_of_named isName).symm.trans isTarget

private theorem Met.of_target {progress : Progress} {reference : TypeRef} {target : Instance}
    (isTarget : reference.target? = some target) (registered : Registered progress target) :
    Met progress reference := by
  refine ⟨fun name isName => ?_, fun other isOther => ?_⟩
  · cases (TypeRef.target?_of_named isName).symm.trans isTarget
  · cases isTarget.symm.trans isOther
    exact registered

/-- Registration goes on, and follows the references of what it adds. Those of earlier types may
still wait, for the types are added before their references are followed. -/
structure Extends (schema : Schema) (before after : Progress) : Prop where
  grows : schema.Grows before after
  names : before.names ⊆ after.names
  met : ∀ type ∈ after.types, type ∈ before.types ∨ ∀ entry ∈ type.references, Met after entry.1

private theorem Met.mono {before after : Progress} {reference : TypeRef}
    (met : Met before reference) (more : schema.Extends before after) : Met after reference :=
  ⟨fun name isName => List.map_subset _ more.names (met.name name isName),
    fun target isTarget => (met.target target isTarget).mono more.grows⟩

private theorem Extends.refl (progress : Progress) : schema.Extends progress progress :=
  ⟨.refl progress, List.Subset.refl _, fun _ listed => .inl listed⟩

private theorem Extends.trans {first second third : Progress}
    (earlier : schema.Extends first second)
    (later : schema.Extends second third) : schema.Extends first third := by
  refine ⟨earlier.grows.trans later.grows, List.Subset.trans earlier.names later.names, ?_⟩
  intro type listed
  rcases later.met type listed with between | met
  · exact (earlier.met type between).imp_right fun met entry made => (met entry made).mono later
  · exact .inr met

private theorem visitAt_extends {depth : Nat}
    (each : ∀ before after target place, schema.register depth before target place = .ok after →
      schema.Extends before after)
    {before after : Progress} {entry : TypeRef × String}
    (visited : schema.visitAt depth before entry = .ok after) :
    schema.Extends before after ∧ Met after entry.1 := by
  rcases visitAt_cases visited with ⟨name, isName, isAfter⟩ | ⟨target, isTarget, registered⟩
  · subst isAfter
    exact ⟨⟨⟨List.prefix_rfl, id, id⟩, List.subset_append_left _ _, fun _ => .inl⟩,
      .of_name isName (mem_names_note _ _ _)⟩
  · exact ⟨each _ _ _ _ registered, .of_target isTarget (register_spec registered).2⟩

private theorem register_extends {depth : Nat} {before after : Progress} {target : Instance}
    {place : String} (registered : schema.register depth before target place = .ok after) :
    schema.Extends before after := by
  have grows := (register_spec registered).1
  induction depth generalizing before after target place with
  | zero => cases registered
  | succ depth induction =>
      rcases register_cases registered with
        ⟨_, _, _, _, isAfter⟩ | ⟨type, finished, unknown, found, folded, isAfter⟩
      · subst isAfter
        exact .refl _
      · subst isAfter
        rcases foldlM_done (fun _ => True) schema.Extends
            (fun progress (entry : TypeRef × String) => Met progress entry.1)
            .refl .trans (fun _ _ _ more met => met.mono more)
            (fun entry made earlier later _ visited => ⟨trivial,
              visitAt_extends (fun _ _ _ _ deeper =>
                induction deeper (register_spec deeper).1) visited⟩)
            trivial folded with ⟨_, more, met⟩
        refine ⟨grows, more.names, fun other listed => ?_⟩
        rcases more.met other listed with entered | followed
        · rcases List.mem_append.mp entered with earlier | added
          · exact .inl earlier
          · rw [List.mem_singleton.mp added]
            exact .inr fun entry made => ⟨(met entry made).name, (met entry made).target⟩
        · exact .inr fun entry made =>
            ⟨(followed entry made).name, (followed entry made).target⟩

private theorem addDirective_extends {before after : Progress × List DirectiveDefinition}
    {directive : DirectiveDefinition} (added : schema.addDirective before directive = .ok after) :
    schema.Extends before.1 after.1 ∧ after.2 = before.2 ++ [directive] ∧
      ∀ argument ∈ directive.arguments, Met after.1 argument.type := by
  rw [addDirective] at added
  split at added
  · cases added
  · rcases bind_eq_ok added with ⟨progress, folded, isAfter⟩
    cases isAfter
    rcases foldlM_done (fun _ => True) schema.Extends
        (fun progress (argument : InputValueDefinition) => Met progress argument.type)
        .refl .trans (fun _ _ _ more met => met.mono more)
        (fun argument _ _ _ _ visited =>
          ⟨trivial, visitAt_extends (fun _ _ _ _ => register_extends) (visit_eq .. ▸ visited)⟩)
        trivial folded with ⟨_, more, met⟩
    exact ⟨more, rfl, met⟩

private theorem directives_of_addDirectives {directives : List DirectiveDefinition}
    {before after : Progress × List DirectiveDefinition}
    (folded : directives.foldlM schema.addDirective before = .ok after) :
    after.2 = before.2 ++ directives := by
  induction directives generalizing before with
  | nil =>
      cases folded
      rw [List.append_nil]
  | cons directive rest induction =>
      rw [List.foldlM_cons] at folded
      rcases bind_eq_ok folded with ⟨between, added, later⟩
      rw [induction later, (addDirective_extends added).2.1, List.append_assoc]
      rfl

/-- Whatever is collected has had its references followed. -/
private theorem collect_met {progress : Progress} {directives : List DirectiveDefinition}
    (collected : schema.collect = .ok (progress, directives)) :
    (∀ type ∈ progress.types, ∀ entry ∈ type.references, Met progress entry.1) ∧
      directives = schema.allDirectives ∧
      ∀ directive ∈ directives, ∀ argument ∈ directive.arguments, Met progress argument.type := by
  rcases bind_eq_ok collected with ⟨registered, folded, directed⟩
  have first : schema.Extends {} registered :=
    foldlM_related schema.Extends .refl .trans (fun _ _ _ _ => register_extends) folded
  rcases foldlM_done (fun _ => True)
      (fun before after : Progress × List DirectiveDefinition => schema.Extends before.1 after.1)
      (fun state (directive : DirectiveDefinition) =>
        ∀ argument ∈ directive.arguments, Met state.1 argument.type)
      (fun state => .refl state.1) .trans
      (fun _ _ _ more met argument isArgument => (met argument isArgument).mono more)
      (fun directive _ _ _ _ added =>
        ⟨trivial, (addDirective_extends added).1, (addDirective_extends added).2.2⟩)
      trivial directed with ⟨_, more, met⟩
  have isAll : directives = schema.allDirectives := directives_of_addDirectives directed
  refine ⟨fun type listed => ?_, isAll, fun directive listed => met directive (isAll ▸ listed)⟩
  rcases (first.trans more).met type listed with start | met
  · cases start
  · exact met

/-! ## Registries -/

variable {registry : Registry}

/-- A reference resolves to a registered type, and by instance to the very instance that it
means. -/
structure Resolves (schema : Schema) (registry : Registry) (reference : TypeRef) : Prop where
  known : ∃ type ∈ registry.types, registry.resolve? reference = some type
  same : ∀ target, reference.target? = some target → ∃ type,
    registry.resolve? reference = some type ∧ type.toInstance = target ∧
      schema.instance? target = some type

/-- The root type of an operation. -/
def root? (schema : Schema) : OperationKind → Option Instance
  | .query => some schema.query
  | .mutation => schema.mutation
  | .subscription => schema.subscription

/-- What is registered under the name of an instance is that instance. -/
private theorem Yields.instance_of_registered (yields : schema.Yields registry)
    {progress : Progress} (isTypes : registry.types = progress.types) {target : Instance}
    (registered : Registered progress target) :
    ∃ type ∈ registry.types, registry.lookup? target.name = some type ∧
      type.toInstance = target ∧ schema.instance? target = some type := by
  rcases registered with ⟨type, found, sameKey⟩
  have parts := Named.find?_mem found
  have isTarget : type.toInstance = target := by
    cases target
    exact congrArg₂ Instance.mk sameKey parts.2
  have listed : type ∈ registry.types := isTypes ▸ parts.1
  have means := yields.means type listed
  rw [Means, isTarget] at means
  refine ⟨type, listed, ?_, isTarget, means⟩
  rw [Registry.lookup?, isTypes]
  exact found

private theorem Yields.resolves_of_met (yields : schema.Yields registry) {progress : Progress}
    (isTypes : registry.types = progress.types)
    (named : unknownName? progress.types progress.names = none) {reference : TypeRef}
    (met : Met progress reference) : schema.Resolves registry reference := by
  have same : ∀ target, reference.target? = some target → ∃ type ∈ registry.types,
      registry.resolve? reference = some type ∧ type.toInstance = target ∧
        schema.instance? target = some type := by
    intro target isTarget
    rw [Registry.resolve?, TypeRef.typeName_of_target isTarget]
    exact yields.instance_of_registered isTypes (met.target target isTarget)
  refine ⟨?_, fun target isTarget => ?_⟩
  · rcases reference.named_or_target with ⟨name, isName⟩ | ⟨target, isTarget⟩
    · have known := unknownName?_eq_none_iff_contains.mp named name (met.name name isName)
      rcases List.any_eq_true.mp known with ⟨type, listed, isType⟩
      rw [← isTypes] at listed
      refine ⟨type, listed, ?_⟩
      rw [Registry.resolve?, TypeRef.typeName_of_named isName, ← beq_iff_eq.mp isType]
      exact yields.lookup_of_mem listed
    · rcases same target isTarget with ⟨type, listed, resolved, _⟩
      exact ⟨type, listed, resolved⟩
  · rcases same target isTarget with ⟨type, _, resolved⟩
    exact ⟨type, resolved⟩

private theorem rootObject_name {types : List NamedType} {kind : OperationKind} {root : Instance}
    {type : NamedType} (isRoot : rootObject types kind root = .ok type) : type.name = root.name := by
  rw [rootObject] at isRoot
  split at isRoot
  · rename_i found filtered
    cases isRoot
    exact (Named.find?_mem (Option.filter_eq_some_iff.mp filtered).1).2
  · cases isRoot

private theorem Carries.root? {progress : Progress} {directives : List DirectiveDefinition}
    (carries : schema.Carries progress directives registry) (kind : OperationKind) :
    (registry.root? kind).map NamedType.name = (schema.root? kind).map Instance.name := by
  have optional : ∀ {root : Option Instance} {type : Option NamedType},
      optionalRoot registry.types kind root = .ok type →
        type.map NamedType.name = root.map Instance.name := by
    intro root type isRoot
    cases root with
    | none =>
        cases isRoot
        rfl
    | some root =>
        rw [optionalRoot] at isRoot
        cases found : rootObject registry.types kind root with
        | error error =>
            rw [found] at isRoot
            cases isRoot
        | ok object =>
            rw [found] at isRoot
            cases isRoot
            exact congrArg some (rootObject_name found)
  cases kind with
  | query => exact congrArg some (rootObject_name carries.query)
  | mutation => exact optional carries.mutation
  | subscription => exact optional carries.subscription

end Schema

namespace Registry

/-- An object type declares an interface. -/
def Declares (registry : Registry) (object interface : NamedType) : Prop :=
  ∃ shape ∈ object.object?, ∃ reference ∈ shape.interfaces,
    registry.resolve? reference = some interface

end Registry

namespace Schema

section

variable {schema : Schema} {registry : Registry}

private theorem Yields.mem_possible (yields : schema.Yields registry)
    {objectName abstractName : String} :
    objectName ∈ registry.possible abstractName ↔
      Belongs registry.types objectName abstractName := by
  rw [Registry.possible, yields.possible]
  exact lists_possibleTypes

private theorem Yields.lookup_iff (yields : schema.Yields registry) {name : String}
    {type : NamedType} :
    registry.lookup? name = some type ↔ type ∈ registry.types ∧ type.name = name := by
  refine ⟨Named.find?_mem, ?_⟩
  rintro ⟨listed, isName⟩
  exact isName ▸ yields.lookup_of_mem listed

private theorem Yields.possible_interface (yields : schema.Yields registry) {interface : NamedType}
    {shape : InterfaceShape} (listed : interface ∈ registry.types)
    (isInterface : interface.shape = .interface shape) {name : String} :
    name ∈ registry.possible interface.name ↔
      ∃ object, registry.object? name = some object ∧ registry.Declares object interface := by
  have known := yields.lookup_of_mem listed
  rw [yields.mem_possible]
  constructor
  · intro belongs
    rcases yields.object_of_belongs belongs with ⟨object, isObject⟩
    have isName := (yields.lookup_iff.mp (Option.filter_eq_some_iff.mp isObject).1).2
    subst isName
    have isPossible : registry.isPossible interface object.name = true :=
      List.contains_iff_mem.mpr (yields.mem_possible.mpr belongs)
    exact ⟨object, isObject, (yields.declares_of_possible isInterface known isObject isPossible).2⟩
  · rintro ⟨object, isObject, own, isOwn, reference, declared, resolved⟩
    rcases yields.lookup_iff.mp (Option.filter_eq_some_iff.mp isObject).1 with ⟨inside, isName⟩
    refine .declares inside isName ?_ declared (yields.lookup_iff.mp resolved).2.symm
    rw [NamedType.object?] at isOwn
    split at isOwn
    · rename_i objectShape
      cases isOwn
      exact objectShape
    · cases isOwn

private theorem Yields.possible_union (yields : schema.Yields registry) {union : NamedType}
    {shape : UnionShape} (listed : union ∈ registry.types) (isUnion : union.shape = .union shape)
    {name : String} :
    name ∈ registry.possible union.name ↔
      ∃ object, registry.object? name = some object ∧
        ∃ member ∈ shape.members, registry.resolve? member = some object := by
  have known := yields.lookup_of_mem listed
  rw [yields.mem_possible]
  constructor
  · intro belongs
    rcases yields.object_of_belongs belongs with ⟨object, isObject⟩
    have found := (Option.filter_eq_some_iff.mp isObject).1
    refine ⟨object, isObject, ?_⟩
    cases belongs with
    | @declares other _ interface inside _ isOther declared isInterface =>
        -- A declared interface is checked to be one.
        have sound := yields.checked other inside
        rw [typeProblem?, isOther] at sound
        have isKind := List.findSome?_eq_none_iff.mp (Option.or_eq_none_iff.mp sound).1 _ declared
        rw [Registry.lookup?] at known
        simp [interfaceProblem?, isInterface, known, NamedType.kind, isUnion] at isKind
    | @member other _ member inside isOther otherUnion isMember isName =>
        have same := yields.lookup_of_mem inside
        rw [isOther, known, Option.some.injEq] at same
        subst same
        rw [isUnion] at otherUnion
        cases otherUnion
        exact ⟨member, isMember, by rw [Registry.resolve?, isName, found]⟩
  · rintro ⟨object, isObject, member, isMember, resolved⟩
    have isName := (yields.lookup_iff.mp (Option.filter_eq_some_iff.mp isObject).1).2
    exact .member listed rfl isUnion isMember ((yields.lookup_iff.mp resolved).2.symm.trans isName)

/-- A registry knows what its schema means. -/
structure Coherent (schema : Schema) (registry : Registry) : Prop where
  /-- Every registered type is known by its own name, and nothing is known by another's. -/
  keys : ∀ name type, registry.lookup? name = some type ↔ type ∈ registry.types ∧ type.name = name
  instances : ∀ type ∈ registry.types, schema.instance? type.toInstance = some type
  references : ∀ type ∈ registry.types, ∀ reference, type.Refers reference →
    schema.Resolves registry reference
  directives : registry.directives = schema.allDirectives
  arguments : ∀ directive ∈ registry.directives, ∀ argument ∈ directive.arguments,
    schema.Resolves registry argument.type
  roots : ∀ kind, (registry.root? kind).map NamedType.toInstance = schema.root? kind
  objects : ∀ kind type, registry.root? kind = some type →
    type.isObject = true ∧ registry.lookup? type.name = some type
  interfaces : ∀ interface ∈ registry.types, ∀ shape, interface.shape = .interface shape →
    ∀ name, name ∈ registry.possible interface.name ↔
      ∃ object, registry.object? name = some object ∧ registry.Declares object interface
  unions : ∀ union ∈ registry.types, ∀ shape, union.shape = .union shape →
    ∀ name, name ∈ registry.possible union.name ↔
      ∃ object, registry.object? name = some object ∧
        ∃ member ∈ shape.members, registry.resolve? member = some object
  possible : ∀ abstractName, ∀ name ∈ registry.possible abstractName,
    ∃ object, registry.object? name = some object

private theorem registered_of_root? {kind : OperationKind} {root : Instance}
    (isRoot : schema.root? kind = some root) : root ∈ schema.registered := by
  apply registered_of_mem_roots
  rw [mem_roots]
  cases kind with
  | query => exact .inl (Option.some.inj isRoot).symm
  | mutation => exact .inr (.inl isRoot)
  | subscription => exact .inr (.inr isRoot)

private theorem Yields.root?_eq (yields : schema.Yields registry) {progress : Progress}
    {directives : List DirectiveDefinition}
    (carries : schema.Carries progress directives registry) (kind : OperationKind) :
    (registry.root? kind).map NamedType.toInstance = schema.root? kind := by
  have sameName := carries.root? kind
  cases isRoot : schema.root? kind with
  | none =>
      rw [isRoot, Option.map_none, Option.map_eq_none_iff] at sameName
      rw [sameName, Option.map_none]
  | some root =>
      rw [isRoot, Option.map_some] at sameName
      rcases Option.map_eq_some_iff.mp sameName with ⟨type, isType, isName⟩
      rcases yields.registered root (registered_of_root? isRoot) with ⟨other, found, sameKey⟩
      have same := (yields.roots kind type isType).2
      rw [isName, found, Option.some.injEq] at same
      subst same
      rw [isType, Option.map_some]
      cases root
      exact congrArg some (congrArg₂ Instance.mk sameKey isName)

/-- Every registry that is built is closed and coherent. -/
theorem build_coherent (schema : Schema) (registry : Registry)
    (built : schema.build = .ok registry) : schema.Coherent registry := by
  have yields := build_yields built
  rcases build_ok built with ⟨progress, directives, collected, passes, carries⟩
  have met := collect_met collected
  have resolves : ∀ reference, Met progress reference → schema.Resolves registry reference :=
    fun reference => yields.resolves_of_met carries.types passes.named
  refine ⟨fun name type => yields.lookup_iff, yields.means, ?_, ?_, ?_, yields.root?_eq carries,
    yields.roots, fun interface listed shape isInterface name =>
      yields.possible_interface listed isInterface, fun union listed shape isUnion name =>
      yields.possible_union listed isUnion, ?_⟩
  · intro type listed reference refers
    rcases refers.followed with ⟨place, made⟩
    exact resolves reference (met.1 type (carries.types ▸ listed) (reference, place) made)
  · exact carries.directives.trans met.2.1
  · intro directive listed argument isArgument
    exact resolves _ (met.2.2 directive (carries.directives ▸ listed) argument isArgument)
  · exact fun abstractName name listed => yields.object_of_belongs (yields.mem_possible.mp listed)

end

namespace Kiosk

/-! Wares are books and films, found by the shelf that they stand on. Two types are called
`Shelf`, and only one of them is referred to. -/

def otherShelf : NamedType where
  key := .custom 0
  name := "Shelf"
  shape := .enum [{ name := "TOP", value := .string "TOP" }]

def shelf : NamedType where
  key := .custom 1
  name := "Shelf"
  shape := .enum [{ name := "LOW", value := .string "LOW" }]

def filter : NamedType where
  key := .custom 2
  name := "Filter"
  shape := .inputObject [{ name := "shelves", type := .list (.deferred shelf.toInstance) }]

def book : NamedType where
  key := .custom 3
  name := "Book"
  shape := .object { fields := [{ name := "title", type := .named "String" }] }

def film : NamedType where
  key := .custom 4
  name := "Film"
  shape := .object { fields := [{ name := "title", type := .named "String" }] }

def ware : NamedType where
  key := .custom 5
  name := "Ware"
  shape := .union { members := [.direct book.toInstance, .named "Film"] }

/-- The query type, with some type for the filter of wares. -/
def query (type : TypeRef) : NamedType where
  key := .custom 6
  name := "Query"
  shape := .object
    { fields := [{ name := "wares", type := .list (.direct ware.toInstance),
                   arguments := [{ name := "filter", type := .named "Filter" },
                                 { name := "shelf", type := type }] }] }

def schema (type : TypeRef) : Schema where
  pool := [otherShelf, shelf, filter, book, film, ware, query type]
  query := (query type).toInstance
  types := [filter.toInstance, film.toInstance]

/-- Two types of one name are not taken. -/
example : (schema (.direct otherShelf.toInstance)).build = .error (.duplicateTypeName "Shelf") :=
  rfl

end Kiosk

/-- Shelves are looked up by name and found to be those that the filter means. -/
theorem build_coherent_of_kiosk :
    ∃ registry, (Kiosk.schema (.named "Shelf")).build = .ok registry ∧
      (Kiosk.schema (.named "Shelf")).Coherent registry ∧
      registry.lookup? "Shelf" = some Kiosk.shelf ∧ registry.possible "Ware" = ["Book", "Film"] := by
  refine ⟨_, rfl, build_coherent _ _ rfl, rfl, rfl⟩

end Schema

namespace Registry

/-- A reference to a registered type. -/
def Resolvable (registry : Registry) (reference : TypeRef) : Prop :=
  ∃ type, registry.resolve? reference = some type

/-- What a registry refers to it has: the types of members and arguments, the root types, and the
possible types of abstract types. -/
structure Closed (registry : Registry) : Prop where
  references : ∀ type ∈ registry.types, ∀ reference, type.Refers reference →
    registry.Resolvable reference
  arguments : ∀ directive ∈ registry.directives, ∀ argument ∈ directive.arguments,
    registry.Resolvable argument.type
  roots : ∀ kind type, registry.root? kind = some type → registry.lookup? type.name = some type
  possible : ∀ abstractName, ∀ name ∈ registry.possible abstractName,
    ∃ type, registry.lookup? name = some type

end Registry

private theorem Schema.build_directives {schema : Schema} {registry : Registry}
    (built : schema.build = .ok registry) : registry.directives = schema.allDirectives := by
  rcases build_ok built with ⟨progress, directives, collected, _, carries⟩
  rw [carries.directives, (collect_met collected).2.1]

/-- The names of the built-in directives stand for them. -/
theorem Schema.build_builtIn {schema : Schema} {registry : Registry}
    (built : schema.build = .ok registry) {directive : DirectiveDefinition}
    (isBuiltIn : directive ∈ DirectiveDefinition.builtIn) :
    registry.directive? directive.name = some directive := by
  have found : Named.find? DirectiveDefinition.builtIn directive.name = some directive := by
    simp only [DirectiveDefinition.builtIn, List.mem_cons, List.not_mem_nil, or_false] at isBuiltIn
    rcases isBuiltIn with rfl | rfl | rfl | rfl <;> rfl
  rw [Registry.directive?, build_directives built, allDirectives]
  exact (List.prefix_append _ _).find?_eq_some found

theorem Schema.build_closed {schema : Schema} {registry : Registry}
    (built : schema.build = .ok registry) : registry.Closed := by
  have yields := build_yields built
  rcases build_ok built with ⟨progress, directives, collected, passes, carries⟩
  have met := collect_met collected
  have resolvable : ∀ reference, Met progress reference → registry.Resolvable reference := by
    intro reference met
    rcases (yields.resolves_of_met carries.types passes.named met).known with ⟨type, _, resolved⟩
    exact ⟨type, resolved⟩
  refine ⟨?_, ?_, fun kind type isRoot => (yields.roots kind type isRoot).2, ?_⟩
  · intro type listed reference refers
    rcases refers.followed with ⟨place, made⟩
    exact resolvable reference (met.1 type (carries.types ▸ listed) (reference, place) made)
  · intro directive listed argument isArgument
    exact resolvable _ (met.2.2 directive (carries.directives ▸ listed) argument isArgument)
  · intro abstractName name listed
    rcases yields.object_of_belongs (yields.mem_possible.mp listed) with ⟨object, isObject⟩
    exact ⟨object, (Option.filter_eq_some_iff.mp isObject).1⟩

end GraphQL
