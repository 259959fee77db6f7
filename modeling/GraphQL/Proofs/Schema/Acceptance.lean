import GraphQL.Proofs.Schema.Checks
import GraphQL.Proofs.Schema.Possible

/-!
The schemas that have a registry. They are the well-formed ones, and the order in which a schema
lists its types makes no difference but for the order of what is registered.
-/

namespace GraphQL

namespace Schema

section

variable {schema : Schema}

/-! ## What is collected before the checks -/

/-- Registration of all that a schema mentions, before the checks. -/
def collect (schema : Schema) : Except SchemaError (Progress × List DirectiveDefinition) := do
  let progress ← schema.registered.foldlM
    (fun progress target =>
      schema.register (schema.instances.length + 1) progress target target.name)
    {}
  schema.allDirectives.foldlM schema.addDirective (progress, [])

private theorem mem_starts {target : Instance} (listed : target ∈ schema.registered) :
    target ∈ schema.starts :=
  List.mem_append_left _ listed

private theorem mem_starts_of_directive {reference : TypeRef}
    (listed : reference ∈ schema.directiveReferences) {target : Instance}
    (isTarget : reference.target? = some target) : target ∈ schema.starts :=
  List.mem_append_right _ (List.mem_filterMap.mpr ⟨reference, listed, isTarget⟩)

private theorem mem_directiveReferences {directive : DirectiveDefinition}
    (listed : directive ∈ schema.allDirectives) {argument : InputValueDefinition}
    (isArgument : argument ∈ directive.arguments) : argument.type ∈ schema.directiveReferences :=
  List.mem_flatMap.mpr ⟨directive, listed, List.mem_map_of_mem isArgument⟩

private theorem addDirective_orderly (pooled : schema.Pooled)
    {before after : Progress × List DirectiveDefinition} {directive : DirectiveDefinition}
    (listed : directive ∈ schema.allDirectives) (orderly : schema.Orderly before.1)
    (added : schema.addDirective before directive = .ok after) :
    schema.Orderly after.1 ∧ Keeps before.1 after.1 ∧
      ∀ argument ∈ directive.arguments, schema.Covers after.1 argument.type := by
  rw [addDirective] at added
  split at added
  · cases added
  · rcases bind_eq_ok added with ⟨progress, folded, isAfter⟩
    cases isAfter
    refine foldlM_done schema.Orderly Keeps
      (fun progress (argument : InputValueDefinition) => schema.Covers progress argument.type)
      .refl .trans (fun _ _ _ keeps covers => covers.keep keeps) ?_ orderly folded
    intro argument isArgument earlier later isOrderly visited
    have mentioned := mem_directiveReferences listed isArgument
    rw [visit_eq] at visited
    exact visitAt_orderly (fun _ _ _ _ => register_orderly pooled) isOrderly (.directive mentioned)
      (fun target isTarget type found =>
        .start (mem_starts_of_directive mentioned isTarget) found) visited

private theorem distinct_of_addDirectives {directives : List DirectiveDefinition}
    {before after : Progress × List DirectiveDefinition}
    (folded : directives.foldlM schema.addDirective before = .ok after)
    (distinct : (Named.names before.2).Nodup) : (Named.names (before.2 ++ directives)).Nodup := by
  induction directives generalizing before with
  | nil => simpa using distinct
  | cons directive rest induction =>
      rw [List.foldlM_cons] at folded
      rcases bind_eq_ok folded with ⟨between, added, later⟩
      rw [addDirective] at added
      split at added
      · cases added
      · rename_i fresh
        rcases bind_eq_ok added with ⟨progress, visited, isBetween⟩
        cases isBetween
        have apart : nameOf directive ∉ Named.names before.2 := by
          intro listed
          rcases List.mem_map.mp listed with ⟨other, known, same⟩
          exact fresh (List.any_eq_true.mpr ⟨other, known, beq_iff_eq.mpr same⟩)
        have more := induction later (by
          rw [Named.names, List.map_append]
          exact distinct.append (List.nodup_singleton _) (List.disjoint_singleton.mpr apart))
        simpa using more

private theorem collect_complete (pooled : schema.Pooled) {progress : Progress}
    {directives : List DirectiveDefinition}
    (collected : schema.collect = .ok (progress, directives)) :
    schema.Complete progress ∧ (Named.names schema.allDirectives).Nodup := by
  rcases bind_eq_ok collected with ⟨registered, folded, directed⟩
  rcases foldlM_done schema.Orderly Keeps
      (fun progress target => ∃ type, schema.instance? target = some type ∧ Settled progress type)
      .refl .trans
      (fun _ _ _ keeps ⟨type, found, settled⟩ => ⟨type, found, settled.mono keeps⟩)
      (fun target listed _ _ orderly step => register_orderly pooled orderly
        (fun type found => .start (mem_starts listed) found) step)
      orderly_start folded with ⟨orderly, keeps, started⟩
  rcases foldlM_done (fun state : Progress × List DirectiveDefinition => schema.Orderly state.1)
      (fun before after => Keeps before.1 after.1)
      (fun state (directive : DirectiveDefinition) =>
        ∀ argument ∈ directive.arguments, schema.Covers state.1 argument.type)
      (fun state => .refl state.1) .trans
      (fun _ _ _ keeps covered argument isArgument => (covered argument isArgument).keep keeps)
      (fun directive listed _ _ isOrderly added =>
        addDirective_orderly pooled listed isOrderly added)
      orderly directed with ⟨isOrderly, alsoKeeps, covered⟩
  refine ⟨⟨isOrderly, alsoKeeps.active.trans keeps.active, ?_, ?_⟩, ?_⟩
  · intro target listed
    rcases started target listed with ⟨type, found, settled⟩
    exact ⟨type, found, settled.mono alsoKeeps⟩
  · intro reference listed
    rcases List.mem_flatMap.mp listed with ⟨directive, isDirective, inside⟩
    rcases List.mem_map.mp inside with ⟨argument, isArgument, isType⟩
    exact isType ▸ covered directive isDirective argument isArgument
  · exact distinct_of_addDirectives directed List.nodup_nil

/-! ## Collecting in well-formed schemas -/

/-- Progress while nothing is being followed. -/
structure Idle (schema : Schema) (progress : Progress) : Prop where
  orderly : schema.Orderly progress
  inactive : progress.active = []

private theorem register_idle (pooled : schema.Pooled) (wellFormed : schema.WellFormed)
    {before : Progress} {target : Instance} (listed : target ∈ schema.starts)
    (idle : schema.Idle before) (place : String) :
    ∃ after, schema.register (schema.instances.length + 1) before target place = .ok after ∧
      schema.Idle after := by
  rcases Option.isSome_iff_exists.mp (pooled.starts target listed) with ⟨type, found⟩
  have noneActive : ∀ other, schema.Member other → other.key ∈ before.active →
      Relation.TransGen schema.LeadsTo other type := by
    intro other member isActive
    rw [idle.inactive] at isActive
    cases isActive
  have registers : ∃ after,
      schema.register (schema.instances.length + 1) before target place = .ok after :=
    register_ok pooled wellFormed (Nat.lt_succ_of_le (remaining_le_instances before)) idle.orderly
      found (.start listed found) noneActive
  rcases registers with ⟨after, registered⟩
  have spec := register_orderly pooled idle.orderly
    (fun type found => .start listed found) registered
  exact ⟨after, registered, spec.1, spec.2.1.active.trans idle.inactive⟩

private theorem visit_idle (pooled : schema.Pooled) (wellFormed : schema.WellFormed)
    {before : Progress} {reference : TypeRef} (listed : reference ∈ schema.directiveReferences)
    (idle : schema.Idle before) (place : String) :
    ∃ after, schema.visit before reference place = .ok after ∧ schema.Idle after := by
  rcases reference.named_or_target with ⟨name, isName⟩ | ⟨target, isTarget⟩
  · rw [visit_eq, visitAt_named isName]
    exact ⟨_, rfl, idle.orderly.note (.directive listed) isName, idle.inactive⟩
  · rw [visit_eq, visitAt_target isTarget]
    exact register_idle pooled wellFormed (mem_starts_of_directive listed isTarget) idle place

private theorem addDirectives_ok (pooled : schema.Pooled) (wellFormed : schema.WellFormed)
    {directives : List DirectiveDefinition}
    (listed : ∀ directive ∈ directives, directive ∈ schema.allDirectives)
    {before : Progress × List DirectiveDefinition} (idle : schema.Idle before.1)
    (distinct : (Named.names (before.2 ++ directives)).Nodup) :
    ∃ after, directives.foldlM schema.addDirective before = .ok after := by
  induction directives generalizing before with
  | nil => exact ⟨before, rfl⟩
  | cons directive rest induction =>
      have fresh : Named.contains before.2 directive.name = false := by
        rw [Named.names, List.map_append] at distinct
        rw [Named.contains, List.any_eq_false]
        intro other known same
        exact (List.nodup_append.mp distinct).2.2 _ (List.mem_map_of_mem known) _
          (List.mem_map_of_mem List.mem_cons_self) (beq_iff_eq.mp same)
      have isListed := listed directive List.mem_cons_self
      rcases foldlM_ok schema.Idle
        (fun (argument : InputValueDefinition) isArgument progress isIdle =>
          visit_idle pooled wellFormed (mem_directiveReferences isListed isArgument) isIdle
            s!"@{directive.name}")
        idle with ⟨progress, folded, isIdle⟩
      have added : schema.addDirective before directive =
          .ok (progress, before.2 ++ [directive]) := by
        rw [addDirective]
        simp only [fresh]
        rw [folded]
        rfl
      rw [List.foldlM_cons, added]
      refine induction (fun other member => listed other (List.mem_cons_of_mem _ member)) isIdle ?_
      rwa [List.append_assoc]

private theorem collect_ok (pooled : schema.Pooled) (wellFormed : schema.WellFormed) :
    ∃ progress directives, schema.collect = .ok (progress, directives) := by
  rcases foldlM_ok schema.Idle
    (fun target listed progress isIdle =>
      register_idle pooled wellFormed (mem_starts listed) isIdle target.name)
    (⟨orderly_start, rfl⟩ : schema.Idle {}) with ⟨registered, folded, isIdle⟩
  have directs : ∃ after,
      schema.allDirectives.foldlM schema.addDirective (registered, []) = .ok after :=
    addDirectives_ok pooled wellFormed (fun _ => id) isIdle wellFormed.directives
  rcases directs with ⟨⟨progress, directives⟩, directed⟩
  refine ⟨progress, directives, ?_⟩
  rw [collect, folded]
  exact directed

/-! ## Building -/

/-- The checks of a registry find nothing. -/
structure Passes (schema : Schema) (progress : Progress) : Prop where
  named : unknownName? progress.types progress.names = none
  kinds : progress.types.findSome? (typeProblem? progress.types) = none
  query : ∃ type, rootObject progress.types .query schema.query = .ok type
  mutation : ∃ type, optionalRoot progress.types .mutation schema.mutation = .ok type
  subscription : ∃ type, optionalRoot progress.types .subscription schema.subscription = .ok type

/-- A registry has what has been collected, and the root types of its schema. -/
structure Carries (schema : Schema) (progress : Progress) (directives : List DirectiveDefinition)
    (registry : Registry) : Prop where
  types : registry.types = progress.types
  directives : registry.directives = directives
  query : rootObject registry.types .query schema.query = .ok registry.query
  mutation : optionalRoot registry.types .mutation schema.mutation = .ok registry.mutation
  subscription :
    optionalRoot registry.types .subscription schema.subscription = .ok registry.subscription

/-- The registry of a schema has what has been collected, if it passes the checks. -/
theorem build_ok {registry : Registry} (built : schema.build = .ok registry) :
    ∃ progress directives, schema.collect = .ok (progress, directives) ∧ schema.Passes progress ∧
      schema.Carries progress directives registry := by
  rw [build] at built
  rcases bind_eq_ok built with ⟨registered, folded, built⟩
  rcases bind_eq_ok built with ⟨⟨progress, directives⟩, directed, built⟩
  have collected : schema.collect = .ok (progress, directives) := by
    rw [collect, folded]
    exact directed
  simp only at built
  split at built
  · cases built
  · rename_i named
    split at built
    · cases built
    · rename_i kinds
      rcases bind_eq_ok built with ⟨query, isQuery, built⟩
      rcases bind_eq_ok built with ⟨mutation, isMutation, built⟩
      rcases bind_eq_ok built with ⟨subscription, isSubscription, built⟩
      cases built
      exact ⟨progress, directives, collected,
        ⟨named, kinds, ⟨query, isQuery⟩, ⟨mutation, isMutation⟩, ⟨subscription, isSubscription⟩⟩,
        ⟨rfl, rfl, isQuery, isMutation, isSubscription⟩⟩

private theorem build_of_passes {progress : Progress} {directives : List DirectiveDefinition}
    (collected : schema.collect = .ok (progress, directives)) (passes : schema.Passes progress) :
    ∃ registry, schema.build = .ok registry := by
  rcases bind_eq_ok collected with ⟨registered, folded, directed⟩
  rcases passes.query with ⟨query, isQuery⟩
  rcases passes.mutation with ⟨mutation, isMutation⟩
  rcases passes.subscription with ⟨subscription, isSubscription⟩
  have directs : schema.allDirectives.foldlM schema.addDirective (registered, []) =
      .ok (progress, directives) := directed
  rw [build, folded]
  simp only [bind, Except.bind]
  rw [directs]
  simp only [passes.named, passes.kinds, isQuery, isMutation, isSubscription]
  exact ⟨_, rfl⟩

theorem mem_roots {root : Instance} :
    root ∈ schema.roots ↔
      root = schema.query ∨ root ∈ schema.mutation ∨ root ∈ schema.subscription := by
  simp [roots]

theorem registered_of_mem_roots {root : Instance} (isRoot : root ∈ schema.roots) :
    root ∈ schema.registered := by
  rcases mem_roots.mp isRoot with isQuery | isMutation | isSubscription
  · simp [registered, isQuery]
  · simp [registered, Option.mem_def.mp isMutation]
  · simp [registered, Option.mem_def.mp isSubscription]

private theorem Complete.passes_iff {progress : Progress} (complete : schema.Complete progress)
    (distinct : (Named.names schema.allDirectives).Nodup) :
    schema.Passes progress ↔ schema.WellFormed := by
  have kinds : progress.types.findSome? (typeProblem? progress.types) = none ↔
      ∀ type, schema.Member type → schema.KindsFit type := by
    rw [List.findSome?_eq_none_iff]
    refine forall_congr' fun type => imp_congr_ctx complete.mem_types fun member => ?_
    exact complete.typeProblem?_eq_none member
  have query := complete.rootObject_ok_iff
    (registered_of_mem_roots (mem_roots.mpr (.inl rfl))) .query
  have mutation := complete.optionalRoot_ok_iff
    (fun _ isRoot => registered_of_mem_roots (mem_roots.mpr (.inr (.inl isRoot)))) .mutation
  have subscription := complete.optionalRoot_ok_iff
    (fun _ isRoot => registered_of_mem_roots (mem_roots.mpr (.inr (.inr isRoot)))) .subscription
  constructor
  · intro passes
    refine ⟨fun _ _ => complete.apart, fun _ => complete.acyclic,
      complete.unknownName?_eq_none.mp passes.named, kinds.mp passes.kinds, ?_, distinct⟩
    intro root listed
    rcases mem_roots.mp listed with isQuery | isMutation | isSubscription
    · exact isQuery ▸ query.mp passes.query
    · exact mutation.mp passes.mutation root isMutation
    · exact subscription.mp passes.subscription root isSubscription
  · intro wellFormed
    have isRoot : ∀ root, root = schema.query ∨ root ∈ schema.mutation ∨
        root ∈ schema.subscription → ∃ type, schema.instance? root = some type ∧
          type.isObject = true :=
      fun root isRoot => wellFormed.roots root (mem_roots.mpr isRoot)
    exact ⟨complete.unknownName?_eq_none.mpr wellFormed.named, kinds.mpr wellFormed.kinds,
      query.mpr (isRoot _ (.inl rfl)), mutation.mpr fun root isMutation =>
        isRoot root (.inr (.inl isMutation)), subscription.mpr fun root isSubscription =>
          isRoot root (.inr (.inr isSubscription))⟩

private theorem types_of_build (pooled : schema.Pooled) {registry : Registry}
    (built : schema.build = .ok registry) :
    registry.types.Nodup ∧ ∀ type, type ∈ registry.types ↔ schema.Member type := by
  rcases build_ok built with ⟨progress, directives, collected, _, carries⟩
  have complete := (collect_complete pooled collected).1
  rw [carries.types]
  exact ⟨.of_map nameOf complete.orderly.distinct, fun type => complete.mem_types⟩

private theorem build_ok_iff (pooled : schema.Pooled) :
    (∃ registry, schema.build = .ok registry) ↔ schema.WellFormed := by
  constructor
  · rintro ⟨registry, built⟩
    rcases build_ok built with ⟨progress, directives, collected, passes, _⟩
    have spec := collect_complete pooled collected
    exact (spec.1.passes_iff spec.2).mp passes
  · intro wellFormed
    rcases collect_ok pooled wellFormed with ⟨progress, directives, collected⟩
    have spec := collect_complete pooled collected
    exact build_of_passes collected ((spec.1.passes_iff spec.2).mpr wellFormed)

/-! ## The order of the types -/

section Reordered

variable {types : List Instance}

/-- The schema that lists its types in another order. -/
def reordered (schema : Schema) (types : List Instance) : Schema := { schema with types := types }

private theorem starts_reordered (permuted : types.Perm schema.types) {target : Instance} :
    target ∈ (schema.reordered types).starts ↔ target ∈ schema.starts := by
  have same : target ∈ (schema.reordered types).registered ↔ target ∈ schema.registered := by
    simp [registered, reordered, permuted.mem_iff]
  rw [starts, starts, List.mem_append, List.mem_append, same]
  rfl

private theorem member_reordered (permuted : types.Perm schema.types) {type : NamedType} :
    (schema.reordered types).Member type ↔ schema.Member type := by
  have samePool : (schema.reordered types).pool = schema.pool := rfl
  exact ⟨fun member => member.mono samePool.symm fun _ => (starts_reordered permuted).mp,
    fun member => member.mono samePool fun _ => (starts_reordered permuted).mpr⟩

private theorem Pooled.reordered (pooled : schema.Pooled) (permuted : types.Perm schema.types) :
    (schema.reordered types).Pooled :=
  ⟨pooled.distinct, fun target listed =>
    pooled.starts target ((starts_reordered permuted).mp listed), pooled.targets⟩

private theorem Fits.reordered {kind : NamedType → Prop} {reference : TypeRef}
    (fits : schema.Fits kind reference) (permuted : types.Perm schema.types) :
    (schema.reordered types).Fits kind reference := by
  rcases fits with ⟨type, stands, isKind⟩
  refine ⟨type, ?_, isKind⟩
  cases stands with
  | name isName member => exact .name isName ((member_reordered permuted).mpr member)
  | target isTarget found => exact .target isTarget found

private theorem WellFormed.reordered (wellFormed : schema.WellFormed)
    (permuted : types.Perm schema.types) : (schema.reordered types).WellFormed := by
  have member : ∀ {type}, (schema.reordered types).Member type → schema.Member type :=
    (member_reordered permuted).mp
  refine ⟨fun type other isMember isOther => wellFormed.apart type other (member isMember)
    (member isOther), fun type isMember => wellFormed.acyclic type (member isMember), ?_,
    fun type isMember => ?_, wellFormed.roots, wellFormed.directives⟩
  · intro reference name made isName
    have makes : schema.Makes reference := by
      cases made with
      | directive listed => exact .directive listed
      | type isMember listed => exact .type (member isMember) listed
    rcases wellFormed.named reference name makes isName with ⟨type, isMember, same⟩
    exact ⟨type, (member_reordered permuted).mpr isMember, same⟩
  · have kinds := wellFormed.kinds type (member isMember)
    exact ⟨fun _ isShape reference listed =>
        (kinds.interfaces _ isShape reference listed).reordered permuted,
      fun shape isShape reference listed =>
        (kinds.members shape isShape reference listed).reordered permuted,
      fun _ isShape field listed => (kinds.fields _ isShape field listed).reordered permuted,
      fun _ isShape field listed argument isArgument =>
        (kinds.arguments _ isShape field listed argument isArgument).reordered permuted,
      fun _ isShape field listed => (kinds.inputFields _ isShape field listed).reordered permuted⟩

end Reordered

/-- A schema has a registry if and only if it is well-formed. Registration ends, with the types of
the schema and no others; and neither success nor the registered types nor the possible types of
any of them depend on the order in which the schema lists its types. -/
theorem build_accepts (schema : Schema) (pooled : schema.Pooled) :
    (∀ progress target place, schema.Follows progress [(.direct target, place)]
      (schema.register (schema.instances.length + 1) progress target place)) ∧
    ((∃ registry, schema.build = .ok registry) ↔ schema.WellFormed) ∧
    (∀ registry, schema.build = .ok registry →
      registry.types.Nodup ∧ ∀ type, type ∈ registry.types ↔ schema.Member type) ∧
    ∀ types : List Instance, types.Perm schema.types →
      ((∃ registry, (schema.reordered types).build = .ok registry) ↔
        ∃ registry, schema.build = .ok registry) ∧
      ∀ registry other, schema.build = .ok registry →
        (schema.reordered types).build = .ok other →
          other.types.Perm registry.types ∧ ∀ abstractName objectName,
            objectName ∈ other.possible abstractName ↔
              objectName ∈ registry.possible abstractName := by
  refine ⟨fun progress target place => ?_, build_ok_iff pooled,
    fun registry => types_of_build pooled, fun types permuted => ⟨?_, ?_⟩⟩
  · have follows : schema.Follows progress [(.direct target, place)]
        ([(TypeRef.direct target, place)].foldlM
          (schema.visitAt (schema.instances.length + 1)) progress) :=
      follows_visitAt (Nat.lt_succ_of_le (remaining_le_instances progress))
    simpa [visitAt, TypeRef.innermost] using follows
  · rw [build_ok_iff pooled, build_ok_iff (pooled.reordered permuted)]
    exact ⟨fun wellFormed => wellFormed.reordered permuted.symm,
      fun wellFormed => wellFormed.reordered permuted⟩
  · intro registry other built builtOther
    have types := types_of_build pooled built
    have otherTypes := types_of_build (pooled.reordered permuted) builtOther
    have same : ∀ type, type ∈ other.types ↔ type ∈ registry.types := fun type =>
      (otherTypes.2 type).trans ((member_reordered permuted).trans (types.2 type).symm)
    refine ⟨(List.perm_ext_iff_of_nodup otherTypes.1 types.1).mpr same, ?_⟩
    intro abstractName objectName
    have ofTypes : ∀ {types others : List NamedType}, (∀ type, type ∈ types → type ∈ others) →
        Lists objectName abstractName (possibleTypes types) →
          Lists objectName abstractName (possibleTypes others) := fun subset lists =>
      lists_possibleTypes.mpr ((lists_possibleTypes.mp lists).mono subset)
    rw [Registry.possible, Registry.possible, (build_yields built).possible,
      (build_yields builtOther).possible]
    exact ⟨ofTypes fun type => (same type).mp, ofTypes fun type => (same type).mpr⟩

end

namespace Kennel

/-! Dogs and cats are pets. Dogs mean the interface itself, cats and the query type its name. -/

def size : NamedType where
  key := .custom 0
  name := "Size"
  shape := .enum [{ name := "SMALL", value := .string "SMALL" }]

def pet : NamedType where
  key := .custom 1
  name := "Pet"
  shape := .interface { fields := [{ name := "name", type := .named "String" }] }

def cat : NamedType where
  key := .custom 2
  name := "Cat"
  shape := .object
    { interfaces := [.named "Pet"], fields := [{ name := "name", type := .named "String" }] }

/-- The type of dogs, with some field. -/
def dog (field : FieldDefinition) : NamedType where
  key := .custom 3
  name := "Dog"
  shape := .object { interfaces := [.direct pet.toInstance], fields := [field] }

def query : NamedType where
  key := .custom 4
  name := "Query"
  shape := .object { fields := [{ name := "pet", type := .named "Pet" }] }

def schema (field : FieldDefinition) : Schema where
  pool := [size, pet, cat, dog field, query]
  query := query.toInstance
  types := [cat.toInstance, (dog field).toInstance]
  directives :=
    [{ name := "sized", arguments := [{ name := "size", type := .direct size.toInstance }] }]

def named : FieldDefinition := { name := "name", type := .named "String" }

/-- A field that leads dogs back to themselves. -/
def parent : FieldDefinition := { name := "parent", type := .deferred ⟨.custom 3, "Dog"⟩ }

/-- The types beside the built-in ones, and those that are pets. -/
def shown (schema : Schema) : Option (List String × List String) :=
  schema.build.toOption.map fun registry =>
    ((Named.names registry.types).drop 13, registry.possible "Pet")

end Kennel

/-- The schema of pets is well-formed, whichever is listed first. With parents it is not, for the
same type is entered again. -/
theorem build_accepts_of_kennel :
    (Kennel.schema Kennel.named).Pooled ∧ (Kennel.schema Kennel.named).WellFormed ∧
      Kennel.shown (Kennel.schema Kennel.named) =
        some (["Query", "Cat", "Dog", "Pet", "Size"], ["Cat", "Dog"]) ∧
      Kennel.shown ((Kennel.schema Kennel.named).reordered
          [(Kennel.dog Kennel.named).toInstance, Kennel.cat.toInstance]) =
        some (["Query", "Dog", "Pet", "Cat", "Size"], ["Dog", "Cat"]) ∧
      (Kennel.schema Kennel.parent).Pooled ∧ ¬(Kennel.schema Kennel.parent).WellFormed := by
  have pooled : (Kennel.schema Kennel.named).Pooled := ⟨by decide, by decide, by decide⟩
  have alsoPooled : (Kennel.schema Kennel.parent).Pooled := ⟨by decide, by decide, by decide⟩
  have built : ∃ registry, (Kennel.schema Kennel.named).build = .ok registry := ⟨_, rfl⟩
  have refused : (Kennel.schema Kennel.parent).build = .error (.cyclicTypeReference "Dog") := rfl
  refine ⟨pooled, (build_accepts _ pooled).2.1.mp built, by decide +kernel, by decide +kernel, alsoPooled, ?_⟩
  intro wellFormed
  rcases (build_accepts _ alsoPooled).2.1.mpr wellFormed with ⟨registry, isBuilt⟩
  rw [refused] at isBuilt
  cases isBuilt

end Schema

end GraphQL
