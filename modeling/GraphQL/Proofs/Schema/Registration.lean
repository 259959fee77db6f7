import GraphQL.Proofs.Fallible
import GraphQL.Proofs.Named
import GraphQL.Schema.Build

/-!
What building a registry guarantees of it: the built-in types are known under their names, the roots
are object types, and every field has an output type. All that a step of registration can do is said
once, and what a registration keeps follows from it.
-/

namespace GraphQL

namespace TypeRef

/-- The instance that a reference means, if it does not go by a name. -/
def target? (reference : TypeRef) : Option Instance :=
  match reference.innermost with
  | .direct target => some target
  | .deferred target => some target
  | _ => none

theorem typeName_of_named {reference : TypeRef} {name : String}
    (isName : reference.innermost = .named name) : reference.typeName = name := by
  rw [← typeName_innermost, isName]
  rfl

theorem typeName_of_target {reference : TypeRef} {target : Instance}
    (isTarget : reference.target? = some target) : reference.typeName = target.name := by
  rw [← typeName_innermost]
  rw [target?] at isTarget
  split at isTarget
  · rename_i direct
    cases isTarget
    rw [direct]
    rfl
  · rename_i deferred
    cases isTarget
    rw [deferred]
    rfl
  · cases isTarget

theorem target?_of_named {reference : TypeRef} {name : String}
    (isName : reference.innermost = .named name) : reference.target? = none := by
  rw [target?, isName]

/-- A reference goes by a name or means an instance. -/
theorem named_or_target (reference : TypeRef) :
    (∃ name, reference.innermost = .named name) ∨ ∃ target, reference.target? = some target := by
  induction reference with
  | named name => exact .inl ⟨name, rfl⟩
  | direct target => exact .inr ⟨target, rfl⟩
  | deferred target => exact .inr ⟨target, rfl⟩
  | list item induction => exact induction
  | nonNull inner induction => exact induction

end TypeRef

namespace Schema

/-- A type is the instance that references to it mean. -/
def Means (schema : Schema) (type : NamedType) : Prop :=
  schema.instance? type.toInstance = some type

/-- Registration only appends, and only what references mean, under new names. -/
structure Grows (schema : Schema) (before after : Progress) : Prop where
  appends : before.types <+: after.types
  means : (∀ type ∈ before.types, schema.Means type) → ∀ type ∈ after.types, schema.Means type
  distinct : (Named.names before.types).Nodup → (Named.names after.types).Nodup

theorem Grows.refl {schema : Schema} (progress : Progress) : schema.Grows progress progress :=
  ⟨List.prefix_rfl, id, id⟩

theorem Grows.trans {schema : Schema} {first second third : Progress}
    (earlier : schema.Grows first second) (later : schema.Grows second third) :
    schema.Grows first third :=
  ⟨earlier.appends.trans later.appends, later.means ∘ earlier.means,
    later.distinct ∘ earlier.distinct⟩

/-- A name stands for the instance of a reference. -/
def Registered (progress : Progress) (target : Instance) : Prop :=
  ∃ type, Named.find? progress.types target.name = some type ∧ type.key = target.key

theorem Registered.mono {schema : Schema} {before after : Progress} {target : Instance}
    (registered : Registered before target) (grows : schema.Grows before after) :
    Registered after target := by
  rcases registered with ⟨type, found, sameKey⟩
  exact ⟨type, grows.appends.find?_eq_some found, sameKey⟩

theorem instance?_eq {schema : Schema} {target : Instance} {type : NamedType}
    (found : schema.instance? target = some type) : type.toInstance = target := by
  have same := List.find?_some found
  simp only [decide_eq_true_eq] at same
  cases target
  exact Instance.mk.injEq .. ▸ same

theorem Grows.append {schema : Schema} (progress : Progress) {target : Instance}
    {type : NamedType} (found : schema.instance? target = some type)
    (unknown : Named.find? progress.types target.name = none) (active : List TypeKey) :
    schema.Grows progress
      { progress with types := progress.types ++ [type], active := active } := by
  refine ⟨List.prefix_append _ _, fun means known listed => ?_, fun distinct => ?_⟩
  · rcases List.mem_append.mp listed with before | added
    · exact means known before
    · rw [List.mem_singleton.mp added, Means, instance?_eq found]
      exact found
  · have fresh : nameOf type ∉ Named.names progress.types := by
      intro listed
      rcases List.mem_map.mp listed with ⟨known, member, sameName⟩
      apply List.find?_eq_none.mp unknown known member
      simpa [nameOf, ← instance?_eq found, NamedType.toInstance] using sameName
    rw [Named.names, List.map_append]
    exact distinct.append (List.nodup_singleton _) (List.disjoint_singleton.mpr fresh)

section

variable {schema : Schema}

/-! ## Steps of registration -/

/-- An instance is registered and its references are followed from here. -/
def Progress.enter (progress : Progress) (type : NamedType) : Progress :=
  { progress with types := progress.types ++ [type], active := type.key :: progress.active }

/-- Follow one reference, with registration nested no deeper than given. -/
def visitAt (schema : Schema) (depth : Nat) (progress : Progress) (entry : TypeRef × String) :
    Except SchemaError Progress :=
  match entry.1.innermost with
  | .named name => .ok { progress with names := progress.names ++ [(name, entry.2)] }
  | .direct target => schema.register depth progress target entry.2
  | .deferred target => schema.register depth progress target entry.2
  | _ => .ok progress

theorem visit_eq (progress : Progress) (reference : TypeRef) (place : String) :
    schema.visit progress reference place =
      schema.visitAt (schema.instances.length + 1) progress (reference, place) :=
  rfl

theorem visitAt_named {depth : Nat} {progress : Progress} {entry : TypeRef × String}
    {name : String} (isName : entry.1.innermost = .named name) :
    schema.visitAt depth progress entry =
      .ok { progress with names := progress.names ++ [(name, entry.2)] } := by
  rw [visitAt, isName]

theorem visitAt_target {depth : Nat} {progress : Progress} {entry : TypeRef × String}
    {target : Instance} (isTarget : entry.1.target? = some target) :
    schema.visitAt depth progress entry = schema.register depth progress target entry.2 := by
  rw [TypeRef.target?] at isTarget
  rw [visitAt]
  split at isTarget
  · rename_i isDirect
    cases isTarget
    rw [isDirect]
  · rename_i isDeferred
    cases isTarget
    rw [isDeferred]
  · cases isTarget

theorem register_fresh {depth : Nat} {progress : Progress} {target : Instance} {place : String}
    {type : NamedType} (unknown : Named.find? progress.types target.name = none)
    (found : schema.instance? target = some type) :
    schema.register (depth + 1) progress target place = do
      let finished ← type.references.foldlM (schema.visitAt depth) (progress.enter type)
      return { finished with active := progress.active } := by
  have isKey : type.key = target.key := congrArg Instance.key (instance?_eq found)
  rw [register, unknown, found, Progress.enter, isKey]
  rfl

theorem mem_names_note (names : List (String × String)) (name place : String) :
    name ∈ Named.names (names ++ [(name, place)]) := by
  rw [Named.names, List.map_append]
  exact List.mem_append_right _ List.mem_cons_self

/-- What is done to follow a reference: its name is noted, or its instance is registered. -/
theorem visitAt_cases {depth : Nat} {before after : Progress} {entry : TypeRef × String}
    (visited : schema.visitAt depth before entry = .ok after) :
    (∃ name, entry.1.innermost = .named name ∧
      after = { before with names := before.names ++ [(name, entry.2)] }) ∨
    ∃ target, entry.1.target? = some target ∧
      schema.register depth before target entry.2 = .ok after := by
  rcases entry.1.named_or_target with ⟨name, isName⟩ | ⟨target, isTarget⟩
  · rw [visitAt_named isName] at visited
    cases visited
    exact .inl ⟨name, isName, rfl⟩
  · rw [visitAt_target isTarget] at visited
    exact .inr ⟨target, isTarget, visited⟩

/-- What is done to register an instance: nothing, if it is registered already and left, or it is
entered and its references are followed. -/
theorem register_cases {depth : Nat} {before after : Progress} {target : Instance} {place : String}
    (registered : schema.register (depth + 1) before target place = .ok after) :
    (∃ existing, Named.find? before.types target.name = some existing ∧
      existing.key = target.key ∧ target.key ∉ before.active ∧ after = before) ∨
    ∃ type finished, Named.find? before.types target.name = none ∧
      schema.instance? target = some type ∧
      type.references.foldlM (schema.visitAt depth) (before.enter type) = .ok finished ∧
      after = { finished with active := before.active } := by
  cases known : Named.find? before.types target.name with
  | some existing =>
      rw [register, known] at registered
      simp only at registered
      split at registered
      · cases registered
      · rename_i sameKey
        split at registered
        · cases registered
        · rename_i notActive
          cases registered
          exact .inl ⟨existing, rfl, Decidable.not_not.mp sameKey, by simpa using notActive, rfl⟩
  | none =>
      cases found : schema.instance? target with
      | none =>
          rw [register, known, found] at registered
          cases registered
      | some type =>
          rw [register_fresh known found] at registered
          rcases bind_eq_ok registered with ⟨finished, folded, isAfter⟩
          cases isAfter
          exact .inr ⟨type, finished, rfl, rfl, folded, rfl⟩

/-- Following a reference only appends if registration does. -/
theorem visitAt_grows {depth : Nat}
    (each : ∀ {before after target place}, schema.register depth before target place = .ok after →
      schema.Grows before after)
    {before after : Progress} {entry : TypeRef × String}
    (visited : schema.visitAt depth before entry = .ok after) : schema.Grows before after := by
  rcases visitAt_cases visited with ⟨name, _, isAfter⟩ | ⟨target, _, registered⟩
  · rw [isAfter]
    exact ⟨List.prefix_rfl, id, id⟩
  · exact each registered

end

theorem register_spec {schema : Schema} {depth : Nat} {before after : Progress}
    {target : Instance} {place : String}
    (registered : schema.register depth before target place = .ok after) :
    schema.Grows before after ∧ Registered after target := by
  induction depth generalizing before after target place with
  | zero => cases registered
  | succ depth induction =>
      rcases register_cases registered with
        ⟨existing, known, sameKey, _, isAfter⟩ | ⟨type, finished, unknown, found, folded, isAfter⟩
      · rw [isAfter]
        exact ⟨.refl before, existing, known, sameKey⟩
      · subst isAfter
        have started := Grows.append before found unknown (type.key :: before.active)
        have followed := foldlM_related schema.Grows .refl .trans
          (fun _ _ _ _ visited => visitAt_grows (fun registered => (induction registered).1) visited)
          folded
        have grows := started.trans followed
        refine ⟨⟨grows.appends, grows.means, grows.distinct⟩, type, ?_, ?_⟩
        · have atEnd : Named.find? (before.types ++ [type]) target.name = some type := by
            rw [Named.find?, List.find?_append, ← Named.find?, unknown, ← instance?_eq found]
            simp [nameOf, NamedType.toInstance]
          exact followed.appends.find?_eq_some atEnd
        · rw [← instance?_eq found]
          rfl

private theorem visit_grows {schema : Schema} {before after : Progress} {reference : TypeRef}
    {place : String} (visited : schema.visit before reference place = .ok after) :
    schema.Grows before after :=
  visitAt_grows (fun registered => (register_spec registered).1) (visit_eq .. ▸ visited)

private theorem addDirective_grows {schema : Schema}
    {before after : Progress × List DirectiveDefinition}
    {directive : DirectiveDefinition} (added : schema.addDirective before directive = .ok after) :
    schema.Grows before.1 after.1 := by
  rw [addDirective] at added
  split at added
  · cases added
  · rcases bind_eq_ok added with ⟨progress, folded, isAfter⟩
    cases isAfter
    exact foldlM_related schema.Grows .refl .trans
      (fun argument member earlier later step => visit_grows step) folded

/-- Every target of a fold of registrations is registered at its end. -/
private theorem registerAll_spec {schema : Schema} {depth : Nat} {targets : List Instance}
    {before after : Progress}
    (folded : targets.foldlM
      (fun progress target => schema.register depth progress target target.name) before =
        .ok after) :
    schema.Grows before after ∧ ∀ target ∈ targets, Registered after target := by
  induction targets generalizing before with
  | nil =>
      cases folded
      exact ⟨.refl _, fun target member => by cases member⟩
  | cons head tail induction =>
      rw [List.foldlM_cons] at folded
      rcases bind_eq_ok folded with ⟨between, first, rest⟩
      have here := register_spec first
      have later := induction rest
      refine ⟨here.1.trans later.1, fun target member => ?_⟩
      rcases List.mem_cons.mp member with equal | member
      · rw [equal]
        exact here.2.mono later.1
      · exact later.2 target member

/-! ## The registry -/

/-- What a registry owes to the build: its types are what references mean, every registered
instance is among them, and no check found a problem. -/
structure Yields (schema : Schema) (registry : Registry) : Prop where
  means : ∀ type ∈ registry.types, schema.Means type
  distinct : (Named.names registry.types).Nodup
  registered : ∀ target ∈ schema.registered,
    ∃ type, registry.lookup? target.name = some type ∧ type.key = target.key
  checked : ∀ type ∈ registry.types, typeProblem? registry.types type = none
  roots : ∀ kind root, registry.root? kind = some root →
    root.isObject = true ∧ registry.lookup? root.name = some root
  possible : registry.possibleTypes = possibleTypes registry.types

private theorem rootObject_spec {types : List NamedType} {kind : OperationKind} {root : Instance}
    {type : NamedType} (isRoot : rootObject types kind root = .ok type) :
    type.isObject = true ∧ Named.find? types type.name = some type := by
  rw [rootObject] at isRoot
  split at isRoot
  · rename_i found filtered
    cases isRoot
    rcases Option.filter_eq_some_iff.mp filtered with ⟨isFound, isObject⟩
    have sameName : type.name = root.name := by simpa [nameOf] using List.find?_some isFound
    exact ⟨isObject, sameName ▸ isFound⟩
  · cases isRoot

private theorem optionalRoot_spec {types : List NamedType} {kind : OperationKind}
    {root : Option Instance}
    {type : NamedType} (isRoot : optionalRoot types kind root = .ok (some type)) :
    type.isObject = true ∧ Named.find? types type.name = some type := by
  cases root with
  | none => cases isRoot
  | some root =>
      rw [optionalRoot] at isRoot
      cases found : rootObject types kind root with
      | error error =>
          rw [found] at isRoot
          cases isRoot
      | ok object =>
          rw [found] at isRoot
          cases isRoot
          exact rootObject_spec found

theorem build_yields {schema : Schema} {registry : Registry}
    (built : schema.build = .ok registry) : schema.Yields registry := by
  rw [build] at built
  rcases bind_eq_ok built with ⟨progress, registered, built⟩
  rcases bind_eq_ok built with ⟨⟨finished, directives⟩, directed, built⟩
  have registration := registerAll_spec registered
  have grows : schema.Grows progress finished :=
    foldlM_related (fun before after => schema.Grows before.1 after.1)
      (fun state => .refl _) .trans
      (fun directive member before after step => addDirective_grows step) directed
  simp only at built
  split at built
  · cases built
  · split at built
    · cases built
    · rename_i checked
      rcases bind_eq_ok built with ⟨query, isQuery, built⟩
      rcases bind_eq_ok built with ⟨mutation, isMutation, built⟩
      rcases bind_eq_ok built with ⟨subscription, isSubscription, built⟩
      cases built
      refine ⟨?_, ?_, ?_, List.findSome?_eq_none_iff.mp checked, ?_, rfl⟩
      · exact (registration.1.trans grows).means fun type member => by cases member
      · exact (registration.1.trans grows).distinct List.nodup_nil
      · intro target member
        exact (registration.2 target member).mono grows
      · intro kind root isRoot
        cases kind with
        | query =>
            cases isRoot
            exact rootObject_spec isQuery
        | mutation =>
            cases isRoot
            exact optionalRoot_spec isMutation
        | subscription =>
            cases isRoot
            exact optionalRoot_spec isSubscription

private theorem means_builtIn (schema : Schema) {type : NamedType}
    (isBuiltIn : type ∈ Scalar.all ++ Meta.all) : schema.Means type := by
  have inside : (Scalar.all ++ Meta.all).find? (fun other =>
      other.key = type.toInstance.key ∧ other.name = type.toInstance.name) = some type := by
    simp only [Scalar.all, Meta.all, List.cons_append, List.nil_append, List.mem_cons,
      List.not_mem_nil, or_false] at isBuiltIn
    rcases isBuiltIn with equal | equal | equal | equal | equal | equal | equal | equal | equal |
      equal | equal | equal | equal
    all_goals
      subst equal
      rfl
  rw [Means, instance?, instances, List.find?_append, inside]
  rfl

namespace Yields

variable {schema : Schema} {registry : Registry}

/-- The name of a built-in type stands for that type. -/
theorem lookup_builtIn (yields : schema.Yields registry) {type : NamedType}
    (isBuiltIn : type ∈ Scalar.all ++ Meta.all) : registry.lookup? type.name = some type := by
  have listed : type.toInstance ∈ schema.registered := by
    rw [Schema.registered]
    simp only [List.mem_append, List.mem_cons]
    exact .inl (.inl (.inl (List.mem_map.mpr ⟨type, by simpa using isBuiltIn, rfl⟩)))
  rcases yields.registered _ listed with ⟨found, isFound, sameKey⟩
  have parts := Named.find?_mem isFound
  have means := yields.means found parts.1
  have sameInstance : found.toInstance = type.toInstance := by
    rw [NamedType.toInstance, NamedType.toInstance, sameKey]
    exact congrArg (Instance.mk type.key) parts.2
  rw [Means, sameInstance, schema.means_builtIn isBuiltIn] at means
  cases means
  exact isFound

private theorem fieldProblem?_none {owner : String} {definition : FieldDefinition}
    (sound : fieldProblem? registry.types owner definition = none) :
    registry.isOutput definition.type = true := by
  rw [fieldProblem?] at sound
  split at sound
  · assumption
  · cases sound

/-- Whatever is selected on a registered type gives values of an output type. -/
theorem isOutput_field (yields : schema.Yields registry) {parent : NamedType}
    (isRegistered : parent ∈ registry.types) {name : String} {definition : FieldDefinition}
    (isField : registry.field? parent name = some definition) :
    registry.isOutput definition.type = true := by
  have sound := yields.checked parent isRegistered
  have ofBuiltIn : ∀ type ∈ Scalar.all ++ Meta.all, type.isOutput = true →
      ∀ reference : TypeRef, reference.typeName = type.name →
        registry.isOutput reference = true := by
    intro type isBuiltIn output reference sameName
    rw [Registry.isOutput, Registry.resolve?, sameName, yields.lookup_builtIn isBuiltIn]
    exact output
  have string : Scalar.all.head (List.cons_ne_nil _ _) ∈ Scalar.all ++ Meta.all :=
    List.mem_append_left _ (List.head_mem _)
  rw [Registry.field?] at isField
  split at isField
  · cases isField
    exact ofBuiltIn _ string rfl _ rfl
  · split at isField
    · cases isField
      exact ofBuiltIn Meta.schemaType (by simp [Meta.all]) rfl _ rfl
    · split at isField
      · cases isField
        exact ofBuiltIn Meta.typeType (by simp [Meta.all]) rfl _ rfl
      · rcases Option.bind_eq_some_iff.mp isField with ⟨fields, isFields, found⟩
        have listed := (Named.find?_mem found).1
        rw [typeProblem?] at sound
        rw [NamedType.fields?] at isFields
        split at isFields
        · rename_i shape isObject
          cases isFields
          simp only [isObject] at sound
          exact fieldProblem?_none
            (List.findSome?_eq_none_iff.mp (Option.or_eq_none_iff.mp sound).2 definition listed)
        · rename_i shape isInterface
          cases isFields
          simp only [isInterface] at sound
          exact fieldProblem?_none
            (List.findSome?_eq_none_iff.mp (Option.or_eq_none_iff.mp sound).2 definition listed)
        · cases isFields

end Yields

end Schema

end GraphQL
