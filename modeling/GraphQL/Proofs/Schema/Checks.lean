import GraphQL.Proofs.Schema.Closure

/-!
The checks after registration. Once everything is registered, the registered types are the types of
the schema, and the checks ask for what well-formedness asks for.
-/

namespace GraphQL

namespace Schema

variable {schema : Schema}

/-- All that a schema mentions has been followed, and nothing is being followed any more. -/
structure Complete (schema : Schema) (progress : Progress) : Prop where
  orderly : schema.Orderly progress
  inactive : progress.active = []
  started : ∀ target ∈ schema.registered,
    ∃ type, schema.instance? target = some type ∧ Settled progress type
  directed : ∀ reference ∈ schema.directiveReferences, schema.Covers progress reference

theorem unknownName?_eq_none_iff_contains {types : List NamedType}
    {names : List (String × String)} :
    unknownName? types names = none ↔
      ∀ name ∈ Named.names names, Named.contains types name = true := by
  rw [unknownName?, List.findSome?_eq_none_iff, Named.names, List.forall_mem_map]
  exact forall₂_congr fun entry listed => ite_eq_left_iff.trans (by simp [nameOf])

namespace Complete

variable {progress : Progress} (complete : schema.Complete progress)

include complete

private theorem settled {type : NamedType} (listed : type ∈ progress.types) :
    Settled progress type := by
  refine ⟨listed, ?_⟩
  rw [complete.inactive]
  exact List.not_mem_nil

/-- The registered types are the types of the schema. -/
theorem mem_types {type : NamedType} : type ∈ progress.types ↔ schema.Member type := by
  refine ⟨complete.orderly.members type, fun member => ?_⟩
  induction member with
  | start listed found =>
      rcases List.mem_append.mp listed with listed | listed
      · rcases complete.started _ listed with ⟨other, foundOther, settled⟩
        rw [found] at foundOther
        cases foundOther
        exact settled.1
      · rcases List.mem_filterMap.mp listed with ⟨reference, made, isTarget⟩
        rcases (complete.directed reference made).target _ isTarget with
          ⟨other, foundOther, settled⟩
        rw [found] at foundOther
        cases foundOther
        exact settled.1
  | next member leads induction =>
      exact (complete.orderly.settled_of_leadsTo (complete.settled induction) leads).1

private theorem covers {reference : TypeRef} (made : schema.Makes reference) :
    schema.Covers progress reference := by
  cases made with
  | directive listed => exact complete.directed reference listed
  | type member listed =>
      exact complete.orderly.closed _ (complete.settled (complete.mem_types.mpr member)) _ listed

/-- Registered types have different names. -/
theorem apart {type other : NamedType} (member : schema.Member type)
    (otherMember : schema.Member other) (same : type.name = other.name) : type = other :=
  List.inj_on_of_nodup_map complete.orderly.distinct (complete.mem_types.mpr member)
    (complete.mem_types.mpr otherMember) same

theorem acyclic {type : NamedType} (member : schema.Member type) :
    ¬Relation.TransGen schema.LeadsTo type type :=
  complete.orderly.acyclic type (complete.settled (complete.mem_types.mpr member))

private theorem find?_eq {reference : TypeRef} (made : schema.Makes reference) {type : NamedType} :
    Named.find? progress.types reference.typeName = some type ↔
      schema.Stands reference type := by
  have ofTarget : ∀ {target}, reference.target? = some target →
      ∃ meant, schema.instance? target = some meant ∧
        Named.find? progress.types reference.typeName = some meant := by
    intro target isTarget
    rcases (complete.covers made).target target isTarget with ⟨meant, found, settled⟩
    have isName : meant.name = target.name := congrArg Instance.name (instance?_eq found)
    rw [TypeRef.typeName_of_target isTarget, ← isName]
    exact ⟨meant, found, Named.find?_of_mem complete.orderly.distinct settled.1⟩
  constructor
  · intro found
    rcases reference.named_or_target with ⟨name, isName⟩ | ⟨target, isTarget⟩
    · have parts := Named.find?_mem found
      rw [TypeRef.typeName_of_named isName] at parts
      have sameName : type.name = name := parts.2
      exact .name (sameName ▸ isName) (complete.mem_types.mp parts.1)
    · rcases ofTarget isTarget with ⟨meant, foundInstance, foundMeant⟩
      rw [found, Option.some.injEq] at foundMeant
      exact .target isTarget (foundMeant ▸ foundInstance)
  · intro stands
    cases stands with
    | name isName member =>
        rw [TypeRef.typeName_of_named isName]
        exact Named.find?_of_mem complete.orderly.distinct (complete.mem_types.mpr member)
    | target isTarget found =>
        rcases ofTarget isTarget with ⟨meant, foundInstance, foundMeant⟩
        rw [found, Option.some.injEq] at foundInstance
        exact foundInstance ▸ foundMeant

/-! ## References -/

private theorem any_iff_fits {reference : TypeRef} (made : schema.Makes reference)
    (kind : NamedType → Bool) :
    (Named.find? progress.types reference.typeName).any kind = true ↔
      schema.Fits (fun type => kind type = true) reference := by
  rw [Option.any_eq_true]
  exact exists_congr fun type => and_congr_left fun _ => complete.find?_eq made

private theorem inputProblem?_eq_none {reference : TypeRef} (made : schema.Makes reference)
    (coordinate : String) :
    inputProblem? progress.types reference coordinate = none ↔
      schema.Fits (fun input => input.isInput = true) reference := by
  rw [inputProblem?, ← complete.any_iff_fits made]
  split <;> simp_all

private theorem memberProblem?_eq_none {reference : TypeRef} (made : schema.Makes reference)
    (owner : String) :
    memberProblem? progress.types owner reference = none ↔
      schema.Fits (fun object => object.isObject = true) reference := by
  rw [memberProblem?, ← complete.any_iff_fits made]
  split <;> simp_all

private theorem interfaceProblem?_eq_none {reference : TypeRef} (made : schema.Makes reference)
    (owner : String) :
    interfaceProblem? progress.types owner reference = none ↔
      schema.Fits (fun interface => interface.kind = .interface) reference := by
  have isKind : (Named.find? progress.types reference.typeName).map NamedType.kind =
      some .interface ↔ schema.Fits (fun interface => interface.kind = .interface) reference := by
    rw [Option.map_eq_some_iff]
    exact exists_congr fun type => and_congr_left fun _ => complete.find?_eq made
  rw [← isKind, interfaceProblem?]
  split <;> simp_all

private theorem fieldProblem?_eq_none {field : FieldDefinition} (made : schema.Makes field.type)
    (arguments : ∀ argument ∈ field.arguments, schema.Makes argument.type) (owner : String) :
    fieldProblem? progress.types owner field = none ↔
      schema.Fits (fun output => output.isOutput = true) field.type ∧
        ∀ argument ∈ field.arguments,
          schema.Fits (fun input => input.isInput = true) argument.type := by
  rw [fieldProblem?, ← complete.any_iff_fits made]
  split
  · rename_i isOutput
    rw [List.findSome?_eq_none_iff, and_iff_right isOutput]
    exact forall₂_congr fun argument listed =>
      complete.inputProblem?_eq_none (arguments argument listed) _
  · rename_i notOutput
    simp only [reduceCtorEq, false_iff]
    exact fun both => absurd both.1 notOutput

/-! ## Types -/

/-- The references of an object or interface type. -/
private theorem fieldProblems_eq_none {type : NamedType} (member : schema.Member type)
    (interfaces : List TypeRef) (fields : List FieldDefinition)
    (references : type.references =
      interfaces.map (·, type.name) ++ fields.flatMap (NamedType.fieldReferences type.name)) :
    (interfaces.findSome? (interfaceProblem? progress.types type.name)).or
        (fields.findSome? (fieldProblem? progress.types type.name)) = none ↔
      (∀ reference ∈ interfaces,
        schema.Fits (fun interface => interface.kind = .interface) reference) ∧
      (∀ field ∈ fields, schema.Fits (fun output => output.isOutput = true) field.type) ∧
      ∀ field ∈ fields, ∀ argument ∈ field.arguments,
        schema.Fits (fun input => input.isInput = true) argument.type := by
  have made : ∀ {entry}, entry ∈ interfaces.map (·, type.name) ++
      fields.flatMap (NamedType.fieldReferences type.name) → schema.Makes entry.1 :=
    fun listed => .type member (references ▸ listed)
  have ofField : ∀ field ∈ fields, ∀ entry ∈ NamedType.fieldReferences type.name field,
      schema.Makes entry.1 := fun field listed entry inside =>
    made (List.mem_append_right _ (List.mem_flatMap.mpr ⟨field, listed, inside⟩))
  rw [Option.or_eq_none_iff, List.findSome?_eq_none_iff, List.findSome?_eq_none_iff, ← forall₂_and]
  refine and_congr (forall₂_congr fun reference listed => ?_) (forall₂_congr fun field listed => ?_)
  · exact complete.interfaceProblem?_eq_none
      (made (List.mem_append_left _ (List.mem_map_of_mem listed))) type.name
  · refine complete.fieldProblem?_eq_none (ofField field listed _ List.mem_cons_self) ?_ type.name
    intro argument isArgument
    exact ofField field listed (argument.type, _)
      (List.mem_cons_of_mem _ (List.mem_map_of_mem isArgument))

/-- The check of a type asks that its references stand for types of the right kinds. -/
theorem typeProblem?_eq_none {type : NamedType} (member : schema.Member type) :
    typeProblem? progress.types type = none ↔ schema.KindsFit type := by
  have made : ∀ reference place, (reference, place) ∈ type.references → schema.Makes reference :=
    fun _ _ => .type member
  cases shape : type.shape with
  | object object =>
      have fields := complete.fieldProblems_eq_none member object.interfaces object.fields
        (by rw [NamedType.references, shape])
      simpa [typeProblem?, kindsFit_iff, NamedType.interfaces?, NamedType.fields?,
        NamedType.inputFields?, shape] using fields
  | interface interface =>
      have fields := complete.fieldProblems_eq_none member interface.interfaces interface.fields
        (by rw [NamedType.references, shape])
      simpa [typeProblem?, kindsFit_iff, NamedType.interfaces?, NamedType.fields?,
        NamedType.inputFields?, shape] using fields
  | union union =>
      have members : union.members.findSome? (memberProblem? progress.types type.name) = none ↔
          ∀ reference ∈ union.members,
            schema.Fits (fun object => object.isObject = true) reference := by
        rw [List.findSome?_eq_none_iff]
        refine forall₂_congr fun reference listed => ?_
        refine complete.memberProblem?_eq_none (made reference type.name ?_) type.name
        rw [NamedType.references, shape]
        exact List.mem_map_of_mem listed
      simpa [typeProblem?, kindsFit_iff, NamedType.interfaces?, NamedType.fields?,
        NamedType.inputFields?, shape] using members
  | inputObject fields =>
      have inputs : (fields.findSome? fun field =>
          inputProblem? progress.types field.type s!"{type.name}.{field.name}") = none ↔
            ∀ field ∈ fields, schema.Fits (fun input => input.isInput = true) field.type := by
        rw [List.findSome?_eq_none_iff]
        refine forall₂_congr fun field listed => ?_
        refine complete.inputProblem?_eq_none (made _ s!"{type.name}.{field.name}" ?_) _
        rw [NamedType.references, shape]
        exact List.mem_map_of_mem listed
      simpa [typeProblem?, kindsFit_iff, NamedType.interfaces?, NamedType.fields?,
        NamedType.inputFields?, shape] using inputs
  | scalar scalar =>
      simp [typeProblem?, kindsFit_iff, NamedType.interfaces?, NamedType.fields?,
        NamedType.inputFields?, shape]
  | enum values =>
      simp [typeProblem?, kindsFit_iff, NamedType.interfaces?, NamedType.fields?,
        NamedType.inputFields?, shape]

/-! ## Names and roots -/

/-- No name is unknown if every name that is referred to is the name of a type. -/
theorem unknownName?_eq_none :
    unknownName? progress.types progress.names = none ↔
      ∀ reference name, schema.Makes reference → reference.innermost = .named name →
        ∃ type, schema.Member type ∧ type.name = name := by
  have known : ∀ name, Named.contains progress.types name = true ↔
      ∃ type, schema.Member type ∧ type.name = name := by
    intro name
    rw [Named.contains, List.any_eq_true]
    exact exists_congr fun type => and_congr complete.mem_types beq_iff_eq
  rw [unknownName?_eq_none_iff_contains]
  constructor
  · intro all reference name made isName
    exact (known name).mp (all name ((complete.covers made).name name isName))
  · intro all name listed
    rcases complete.orderly.noted name listed with ⟨reference, made, isName⟩
    exact (known name).mpr (all reference name made isName)

theorem rootObject_ok_iff {root : Instance} (listed : root ∈ schema.registered)
    (kind : OperationKind) :
    (∃ type, rootObject progress.types kind root = .ok type) ↔
      ∃ type, schema.instance? root = some type ∧ type.isObject = true := by
  rcases complete.started root listed with ⟨meant, found, settled⟩
  have isName : meant.name = root.name := congrArg Instance.name (instance?_eq found)
  have byName : Named.find? progress.types root.name = some meant :=
    isName ▸ Named.find?_of_mem complete.orderly.distinct settled.1
  rw [rootObject, byName, found]
  cases isObject : meant.isObject <;> simp [Option.filter, isObject]

theorem optionalRoot_ok_iff {root : Option Instance}
    (listed : ∀ target ∈ root, target ∈ schema.registered) (kind : OperationKind) :
    (∃ type, optionalRoot progress.types kind root = .ok type) ↔
      ∀ target ∈ root, ∃ type, schema.instance? target = some type ∧ type.isObject = true := by
  cases root with
  | none => simp [optionalRoot]
  | some target =>
      have isRoot := complete.rootObject_ok_iff (listed target rfl) kind
      simp only [optionalRoot, Option.mem_some_iff, forall_eq', ← isRoot]
      cases rootObject progress.types kind target <;> simp [Except.map]

end Complete

end Schema

end GraphQL
