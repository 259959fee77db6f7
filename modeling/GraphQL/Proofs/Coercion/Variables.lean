import GraphQL.Coercion.Request
import GraphQL.Proofs.Coercion.DryRun
import GraphQL.Validation.Rules.Variables

/-!
The variables of a request that passed: each is what its definition made of the values provided. At
a site where its definition may stand, a variable has what is asked of it, or null was given for it.
-/

namespace GraphQL

variable {registry : Registry} {provided : List (String × Json)} {values : Variables}

/-! ## Outcomes -/

namespace VariableDefinition

/-- The entry that a definition adds. -/
def binding? (registry : Registry) (provided : List (String × Json))
    (definition : VariableDefinition) : Option (String × VariableValue) :=
  match definition.coerce registry provided with
  | .ok outcome => outcome.map fun value => (definition.name, value)
  | .error _ => none

/-- The error that a definition adds. -/
def error? (registry : Registry) (provided : List (String × Json))
    (definition : VariableDefinition) : Option ResponseError :=
  (failure? (definition.coerce registry provided)).map definition.error

private theorem name_of_binding {definition : VariableDefinition} {entry : String × VariableValue}
    (isEntry : definition.binding? registry provided = some entry) :
    entry.1 = definition.name := by
  rw [binding?] at isEntry
  split at isEntry
  · rcases Option.map_eq_some_iff.mp isEntry with ⟨value, _, rfl⟩
    rfl
  · cases isEntry

private theorem coerce_eq_ok {definition : VariableDefinition}
    (passed : definition.error? registry provided = none) :
    definition.coerce registry provided =
      .ok ((definition.binding? registry provided).map Prod.snd) := by
  rw [error?, Option.map_eq_none_iff, failure?_eq_none] at passed
  rcases passed with ⟨outcome, isOutcome⟩
  rw [binding?, isOutcome]
  cases outcome <;> rfl

end VariableDefinition

namespace Variables

private theorem addOutcome_eq {state : Variables × List ResponseError}
    {definition : VariableDefinition} (fresh : definition.name ∉ Named.names state.1) :
    addOutcome registry provided state definition =
      (state.1 ++ (definition.binding? registry provided).toList,
        state.2 ++ (definition.error? registry provided).toList) := by
  rw [addOutcome, VariableDefinition.binding?, VariableDefinition.error?]
  cases definition.coerce registry provided with
  | error message => simp [failure?]
  | ok outcome =>
      cases outcome with
      | none => simp [failure?]
      | some value =>
          have isAppended : Named.put state.1 (definition.name, value) =
              state.1 ++ [(definition.name, value)] := Named.put_eq_append fresh
          simp [failure?, isAppended]

/-- With different names, entries and errors are those of the definitions in order. -/
private theorem foldl_addOutcome {definitions : List VariableDefinition}
    {state : Variables × List ResponseError}
    (distinct : (definitions.map VariableDefinition.name).Nodup)
    (fresh : ∀ definition ∈ definitions, definition.name ∉ Named.names state.1) :
    definitions.foldl (addOutcome registry provided) state =
      (state.1 ++ definitions.filterMap (VariableDefinition.binding? registry provided),
        state.2 ++ definitions.filterMap (VariableDefinition.error? registry provided)) := by
  induction definitions generalizing state with
  | nil => simp
  | cons head tail induction =>
      have apart := List.nodup_cons.mp distinct
      have parts := List.forall_mem_cons.mp fresh
      have later : ∀ definition ∈ tail, definition.name ∉
          Named.names (state.1 ++ (head.binding? registry provided).toList) := by
        intro definition member listed
        rw [Named.names, List.map_append, List.mem_append] at listed
        rcases listed with before | here
        · exact parts.2 definition member before
        · rcases List.mem_map.mp here with ⟨entry, isEntry, isName⟩
          have ofHead := VariableDefinition.name_of_binding (Option.mem_toList.mp isEntry)
          exact apart.1 (List.mem_map.mpr ⟨definition, member, isName.symm.trans ofHead⟩)
      rw [List.foldl_cons, addOutcome_eq parts.1, induction apart.2 later]
      simp only [List.filterMap_eq_flatMap_toList, List.flatMap_cons, List.append_assoc]

theorem names_bindings (definitions : List VariableDefinition) :
    (Named.names (definitions.filterMap (VariableDefinition.binding? registry provided))).Sublist
      (definitions.map VariableDefinition.name) := by
  induction definitions with
  | nil => exact .slnil
  | cons head tail induction =>
      cases isEntry : head.binding? registry provided with
      | none =>
          rw [List.filterMap_cons_none isEntry]
          exact induction.cons _
      | some entry =>
          rw [List.filterMap_cons_some isEntry, List.map_cons,
            ← VariableDefinition.name_of_binding isEntry]
          exact induction.cons_cons entry.1

private theorem get?_bindings {definitions : List VariableDefinition}
    (distinct : (definitions.map VariableDefinition.name).Nodup) {definition : VariableDefinition}
    (member : definition ∈ definitions) :
    get? (definitions.filterMap (VariableDefinition.binding? registry provided)) definition.name =
      (definition.binding? registry provided).map Prod.snd := by
  cases isEntry : definition.binding? registry provided with
  | some entry =>
      have listed : entry ∈ definitions.filterMap (VariableDefinition.binding? registry provided) :=
        List.mem_filterMap.mpr ⟨definition, member, isEntry⟩
      rw [← VariableDefinition.name_of_binding isEntry]
      exact Named.value?_of_mem ((names_bindings definitions).nodup distinct) listed
  | none =>
      refine Named.value?_eq_none.mpr fun listed => ?_
      rcases List.mem_map.mp listed with ⟨entry, isBound, isName⟩
      rcases List.mem_filterMap.mp isBound with ⟨other, otherMember, isOther⟩
      have sameName := (VariableDefinition.name_of_binding isOther).symm.trans isName
      cases List.inj_on_of_nodup_map distinct otherMember member sameName
      rw [isEntry] at isOther
      cases isOther

end Variables

theorem Operation.coerceVariables_eq {operation : Operation}
    (distinct : (operation.variableDefinitions.map VariableDefinition.name).Nodup) :
    operation.coerceVariables registry provided =
      match operation.variableDefinitions.filterMap
        (VariableDefinition.error? registry provided) with
      | [] => .ok (operation.variableDefinitions.filterMap
          (VariableDefinition.binding? registry provided))
      | error :: errors => .error (error :: errors) := by
  have fresh : ∀ definition ∈ operation.variableDefinitions,
      definition.name ∉ Named.names ([] : Variables) := fun _ _ => List.not_mem_nil
  rw [coerceVariables, Variables.foldl_addOutcome distinct fresh]
  cases operation.variableDefinitions.filterMap
    (VariableDefinition.error? registry provided) <;> rfl

/-- The variables of a request that was accepted are the outcomes of their definitions. -/
theorem Operation.coerced_variable {operation : Operation}
    (distinct : (operation.variableDefinitions.map VariableDefinition.name).Nodup)
    (coerced : operation.coerceVariables registry provided = .ok values)
    {definition : VariableDefinition} (member : definition ∈ operation.variableDefinitions) :
    definition.coerce registry provided = .ok (values.get? definition.name) := by
  rw [coerceVariables_eq distinct] at coerced
  split at coerced
  · rename_i noErrors
    have passed := List.filterMap_eq_nil_iff.mp noErrors definition member
    rw [VariableDefinition.coerce_eq_ok passed, ← Except.ok.inj coerced,
      Variables.get?_bindings distinct member]
  · cases coerced

theorem Operation.coerceVariables_errors {operation : Operation} {registry : Registry}
    {provided : List (String × Json)} {errors : List ResponseError}
    (refused : operation.coerceVariables registry provided = .error errors) : errors ≠ [] := by
  rw [coerceVariables] at refused
  dsimp only at refused
  split at refused
  · cases refused
  · rename_i notEmpty
    rw [← Except.error.inj refused]
    exact fun empty => notEmpty (List.isEmpty_iff.mpr empty)

/-! ## Null -/

theorem Json.eq_null {value : Json} (isNull : value.isNull = true) : value = .null := by
  cases value with
  | null => rfl
  | _ => cases isNull

theorem Literal.eq_null {literal : Literal} (isNull : literal.isNull = true) : literal = .null := by
  cases literal with
  | null => rfl
  | _ => cases isNull

namespace VariableDefinition

variable {definition : VariableDefinition} {site : InputSite}

/-- Null is given for a variable: as its value, or as its default if no value is. -/
def GivenNull (definition : VariableDefinition) (provided : List (String × Json)) : Prop :=
  Named.value? provided definition.name = some .null ∨
    (Named.value? provided definition.name = none ∧ definition.default = some .null)

/-- Neither a value nor a default is given for a variable. -/
def LeftOut (definition : VariableDefinition) (provided : List (String × Json)) : Prop :=
  Named.value? provided definition.name = none ∧ definition.default = none

/-- Something that is not null is given for a variable, and reads as null. -/
def ReadsNull (definition : VariableDefinition) (registry : Registry)
    (provided : List (String × Json)) : Prop :=
  (∃ value, Named.value? provided definition.name = some value ∧ value.isNull = false ∧
      registry.coerceValue value (TypeRef.ofExpr definition.type) = .ok .null) ∨
    (Named.value? provided definition.name = none ∧ ∃ literal, definition.default = some literal ∧
      literal.isNull = false ∧
      registry.coerceLiteral none literal (TypeRef.ofExpr definition.type) = .ok .null)

theorem throughWrappers_null (refusal : TypeRef → String) (items? : Option InputReader)
    (leaf : InputReader) {type : TypeRef}
    (reads : (InputReader.throughWrappers true refusal items? leaf).Reads type) :
    type.isNonNull = false := by
  cases type with
  | nonNull inner =>
      rcases reads with ⟨value, isValue⟩
      cases isValue
  | _ => rfl

/-- The outcomes of a definition. -/
inductive Outcome (registry : Registry) (provided : List (String × Json))
    (definition : VariableDefinition) : Option VariableValue → Prop
  | absent (nullable : (TypeRef.ofExpr definition.type).isNonNull = false)
      (leftOut : definition.LeftOut provided) : Outcome registry provided definition none
  | null {entry : VariableValue} (isNull : entry.value.isNull = true)
      (given : definition.ReadsNull registry provided ∨
        (definition.GivenNull provided ∧ (TypeRef.ofExpr definition.type).isNonNull = false)) :
      Outcome registry provided definition (some entry)
  | value {entry : VariableValue} (notNull : entry.value.isNull = false) :
      Outcome registry provided definition (some entry)

/-- Where the outcome of a definition comes from: the value provided for it or its default, coerced
to its type. -/
inductive Source (registry : Registry) (provided : List (String × Json))
    (definition : VariableDefinition) : Option VariableValue → Prop
  | provided {json value : Json} (given : Named.value? provided definition.name = some json)
      (coerced : registry.coerceValue json (TypeRef.ofExpr definition.type) = .ok value) :
      Source registry provided definition
        (some ⟨value, .explicit, TypeRef.ofExpr definition.type⟩)
  | default {literal : Literal} {value : Json}
      (notGiven : Named.value? provided definition.name = none)
      (isDefault : definition.default = some literal)
      (coerced :
        registry.coerceLiteral none literal (TypeRef.ofExpr definition.type) = .ok value) :
      Source registry provided definition
        (some ⟨value, .variableDefault, TypeRef.ofExpr definition.type⟩)
  | leftOut (nullable : (TypeRef.ofExpr definition.type).isNonNull = false)
      (leftOut : definition.LeftOut provided) : Source registry provided definition none

theorem coerce_source {outcome : Option VariableValue}
    (coerced : definition.coerce registry provided = .ok outcome) :
    registry.isInput (TypeRef.ofExpr definition.type) = true ∧
      definition.Source registry provided outcome := by
  cases isInput : registry.isInput (TypeRef.ofExpr definition.type) with
  | false => simp [coerce, isInput] at coerced
  | true =>
      refine ⟨rfl, ?_⟩
      simp only [coerce, isInput, Bool.not_true, Bool.false_eq_true, ↓reduceIte] at coerced
      split at coerced
      · rename_i value given
        split at coerced
        · cases coerced
        · split at coerced
          · rename_i read isRead
            cases coerced
            exact .provided given isRead
          · cases coerced
      · rename_i notGiven
        split at coerced
        · rename_i literal isDefault
          split at coerced
          · rename_i read isRead
            cases coerced
            exact .default notGiven isDefault isRead
          · cases coerced
        · rename_i noDefault
          split at coerced
          · cases coerced
          · rename_i nullable
            cases coerced
            exact .leftOut (by simpa using nullable) ⟨notGiven, noDefault⟩

private theorem outcome_of_read {entry : VariableValue}
    (null : entry.value = .null → definition.ReadsNull registry provided ∨
      (definition.GivenNull provided ∧ (TypeRef.ofExpr definition.type).isNonNull = false)) :
    Outcome registry provided definition (some entry) := by
  cases isNull : entry.value.isNull with
  | false => exact .value isNull
  | true => exact .null isNull (null (Json.eq_null isNull))

theorem Source.outcome {outcome : Option VariableValue}
    (source : definition.Source registry provided outcome) :
    Outcome registry provided definition outcome := by
  cases source with
  | @provided json value given coerced =>
      refine outcome_of_read ?_
      rintro rfl
      cases givenNull : json.isNull with
      | false => exact .inl (.inl ⟨json, given, givenNull, coerced⟩)
      | true =>
          rw [Json.eq_null givenNull] at given coerced
          exact .inr ⟨.inl given, throughWrappers_null _ _ _ ⟨_, coerced⟩⟩
  | @default literal value notGiven isDefault coerced =>
      refine outcome_of_read ?_
      rintro rfl
      cases givenNull : literal.isNull with
      | false => exact .inl (.inr ⟨notGiven, literal, isDefault, givenNull, coerced⟩)
      | true =>
          rw [Literal.eq_null givenNull] at isDefault coerced
          exact .inr ⟨.inr ⟨notGiven, isDefault⟩, throughWrappers_null _ _ _ ⟨_, coerced⟩⟩
  | leftOut nullable leftOut => exact .absent nullable leftOut

/-! ## Sites where a variable may stand -/

/-- A default in the place of a missing variable, or of the variable itself, other than null. -/
def HasStandIn (definition : VariableDefinition) (site : InputSite) : Prop :=
  Rules.hasNonNullDefault definition = true ∨ site.hasDefault = true

/-- At a site that requires a value, a variable that may be null needs a default, or the site is a
list that it is promoted into. -/
def Permitted (definition : VariableDefinition) (site : InputSite) : Prop :=
  site.type.isNonNull = true → (TypeRef.ofExpr definition.type).isNonNull = true ∨
    definition.HasStandIn site ∨ site.type.isList = true

theorem Permitted.of_covers {other : InputSite} (covers : site.Covers other)
    (permitted : definition.Permitted other) : definition.Permitted site := by
  have sameType : site.type.byName = other.type.byName := covers.sameType
  intro required
  have otherRequired : other.type.isNonNull = true := by
    rw [← TypeRef.isNonNull_byName, ← sameType, TypeRef.isNonNull_byName, required]
  rcases permitted otherRequired with nonNull | standIn | isList
  · exact .inl nonNull
  · exact .inr (.inl (standIn.imp_right (covers.default otherRequired)))
  · refine .inr (.inr ?_)
    rw [← TypeRef.isList_byName, sameType, TypeRef.isList_byName, isList]

/-- Why a variable may lack a value where one is required. -/
inductive Lacks (registry : Registry) (provided : List (String × Json))
    (definition : VariableDefinition) (site : InputSite) : Prop
  /-- Null was given to a variable that may stand here only because of a default. -/
  | given (nullable : (TypeRef.ofExpr definition.type).isNonNull = false)
      (standIn : definition.HasStandIn site) (given : definition.GivenNull provided)
  /-- What was given is not null, but reads as null. -/
  | reads (reads : definition.ReadsNull registry provided)
  /-- Nothing or null was given to a variable that is promoted into a list here. The list excludes
  null, but the position was checked against its items. -/
  | promoted (nullable : (TypeRef.ofExpr definition.type).isNonNull = false)
      (noStandIn : ¬definition.HasStandIn site) (isList : site.type.isList = true)
      (empty : definition.LeftOut provided ∨ definition.GivenNull provided)

/-- Where a variable may stand it has what is asked of it, or it lacks a value for a reason. -/
theorem Outcome.serves_or_lacks
    (outcome : Outcome registry provided definition (values.get? definition.name))
    (permitted : definition.Permitted site) :
    values.Serves definition.name site ∨
      (site.type.isNonNull = true ∧ definition.Lacks registry provided site) := by
  by_cases required : site.type.isNonNull = true
  · have promotes (nullable : (TypeRef.ofExpr definition.type).isNonNull = false)
        (noStandIn : ¬definition.HasStandIn site) : site.type.isList = true := by
      rcases permitted required with nonNull | standIn | isList
      · rw [nullable] at nonNull
        cases nonNull
      · exact absurd standIn noStandIn
      · exact isList
    generalize isValue : values.get? definition.name = value? at outcome
    cases outcome with
    | value notNull => exact .inl fun _ => .inl ⟨_, isValue, notNull⟩
    | null isNull given =>
        refine .inr ⟨required, ?_⟩
        rcases given with reads | ⟨given, nullable⟩
        · exact .reads reads
        · by_cases standIn : definition.HasStandIn site
          · exact .given nullable standIn given
          · exact .promoted nullable standIn (promotes nullable standIn) (.inr given)
    | absent nullable leftOut =>
        by_cases standIn : definition.HasStandIn site
        · refine .inl fun _ => .inr ⟨isValue, standIn.resolve_left ?_⟩
          rw [Rules.hasNonNullDefault, leftOut.2]
          exact Bool.false_ne_true
        · exact .inr ⟨required, .promoted nullable standIn (promotes nullable standIn)
            (.inl leftOut)⟩
  · exact .inl fun isRequired => absurd isRequired required

end VariableDefinition

/-! ## What the position rule makes sure of -/

namespace Rules

theorem isNonNull_of_isSubType {sub inner : TypeRef}
    (isSub : registry.isSubType sub (.nonNull inner) = true) : sub.isNonNull = true := by
  cases sub with
  | nonNull sub => rfl
  | _ => cases isSub

private theorem isList_of_isAllowed {variableType inner : TypeRef}
    (nullable : variableType.isNonNull = false)
    (allowed : isAllowed registry variableType (.nonNull inner) = true) :
    (TypeRef.nonNull inner).isList = true := by
  have notSub : registry.isSubType variableType (.nonNull inner) ≠ true := by
    intro isSub
    rw [isNonNull_of_isSubType isSub] at nullable
    cases nullable
  cases inner with
  | list item => rfl
  | _ => exact absurd allowed notSub

def VariableUsage.site (usage : VariableUsage) : InputSite :=
  ⟨usage.locationType, usage.locationHasDefault⟩

private theorem permitted_of_isAllowed {definition : VariableDefinition} {usage : VariableUsage}
    (allowed : isAllowed registry (TypeRef.ofExpr definition.type)
      (effectiveLocation (TypeRef.ofExpr definition.type) (hasNonNullDefault definition) usage) =
        true) : definition.Permitted usage.site := by
  intro required
  cases nonNull : (TypeRef.ofExpr definition.type).isNonNull with
  | true => exact .inl rfl
  | false =>
      refine .inr ?_
      by_cases standIn : definition.HasStandIn usage.site
      · exact .inl standIn
      · refine .inr ?_
        have noDefault : (hasNonNullDefault definition || usage.locationHasDefault) = false := by
          simpa [VariableDefinition.HasStandIn, VariableUsage.site] using standIn
        change usage.locationType.isNonNull = true at required
        change usage.locationType.isList = true
        cases location : usage.locationType with
        | nonNull inner =>
            rw [effectiveLocation, location] at allowed
            simp only [nonNull, noDefault, Bool.and_false, Bool.false_eq_true, ↓reduceIte]
              at allowed
            exact isList_of_isAllowed nonNull allowed
        | _ => simp [location, TypeRef.isNonNull] at required

end Rules

/-- The position rule lets a variable stand at a site. -/
def VariableDefinition.AllowedAt (registry : Registry) (definition : VariableDefinition)
    (site : InputSite) : Prop :=
  ∃ usage : Rules.VariableUsage, usage.site = site ∧
    Rules.isAllowed registry (TypeRef.ofExpr definition.type)
      (Rules.effectiveLocation (TypeRef.ofExpr definition.type)
        (Rules.hasNonNullDefault definition) usage) = true

theorem VariableDefinition.AllowedAt.permitted {definition : VariableDefinition} {site : InputSite}
    (allowed : definition.AllowedAt registry site) : definition.Permitted site := by
  rcases allowed with ⟨usage, rfl, allowed⟩
  exact Rules.permitted_of_isAllowed allowed

namespace Rules

/-- A defined variable that is not misplaced may stand where it is used. -/
theorem allowed_of_placed {operation : Operation} {usage : VariableUsage}
    (inputs : ∀ definition ∈ operation.variableDefinitions,
      registry.isInput (TypeRef.ofExpr definition.type) = true)
    (defined : usage.name ∈ definedNames operation)
    (placed : misplaced? registry operation usage = none) :
    ∃ definition ∈ operation.variableDefinitions,
      definition.name = usage.name ∧ definition.AllowedAt registry usage.site := by
  rw [misplaced?] at placed
  dsimp only at placed
  split at placed
  · rename_i unknown
    rcases List.mem_map.mp defined with ⟨definition, member, isName⟩
    have notNamed := List.find?_eq_none.mp unknown definition (List.mem_reverse.mpr member)
    exact absurd (by simpa using isName) notNamed
  · rename_i definition found
    have member := List.mem_reverse.mp (List.mem_of_find?_eq_some found)
    refine ⟨definition, member, by simpa using List.find?_some found, ?_⟩
    have resolves : (registry.resolve? (TypeRef.ofExpr definition.type)).isNone = false := by
      rcases (Option.any_eq_true _ _).mp (inputs definition member) with ⟨type, resolved, _⟩
      rw [resolved]
      rfl
    split at placed
    · rename_i unresolved
      rw [resolves] at unresolved
      cases unresolved
    · split at placed
      · rename_i isAllowed
        exact ⟨usage, rfl, isAllowed⟩
      · cases placed

end Rules

end GraphQL
