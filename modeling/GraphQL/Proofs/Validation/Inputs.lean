import GraphQL.Proofs.Coercion.Checked
import GraphQL.Proofs.Validation.Accepted
import GraphQL.Proofs.Validation.Reaching
import GraphQL.Validation.Request

/-!
What the default plan makes sure of for inputs: the variables of an operation have different names,
and the arguments of every field that the operation reaches are checked for it.
-/

namespace GraphQL

/-- A request is accepted if no rule reports anything and its variables are coerced. -/
theorem Document.checkRequest_accepted {document : Document} {registry : Registry}
    {plan : List Rule} {operation : Operation} {provided : List (String × Json)}
    {values : Variables}
    (accepted : document.checkRequest registry plan operation provided =
      { variableValues := values }) :
    document.validate registry plan = [] ∧
      operation.coerceVariables registry provided = .ok values := by
  rw [checkRequest] at accepted
  split at accepted
  · rename_i silent
    refine ⟨silent, ?_⟩
    cases coerced : operation.coerceVariables registry provided with
    | ok found =>
        rw [coerced] at accepted
        exact congrArg Except.ok (congrArg RequestCheck.variableValues accepted)
    | error errors =>
        rw [coerced] at accepted
        exact absurd (congrArg RequestCheck.errors accepted)
          (Operation.coerceVariables_errors coerced)
  · rename_i reported
    exact absurd (List.map_eq_nil_iff.mp (congrArg RequestCheck.errors accepted)) reported

/-- On an accepted document no rule reports anything. -/
theorem Document.validate_of_isValid {document : Document} {registry : Registry}
    {plan : List Rule} {operation : Operation} {provided : List (String × Json)}
    (valid : (document.checkRequest registry plan operation provided).isValid = true) :
    document.validate registry plan = [] := by
  rw [RequestCheck.isValid, List.isEmpty_iff, checkRequest] at valid
  split at valid
  · assumption
  · exact List.map_eq_nil_iff.mp valid

namespace Rules

variable {schema : Schema} {subject : Subject} {registry : Registry} {document : Document}
  {operation : Operation}

/-! ## Names of variables -/

theorem noteName_silent {known : FirstPositions} {name : String} {position : Position}
    {message : String} (silent : (noteName known name position message).2 = []) :
    name ∉ Named.names known ∧
      (noteName known name position message).1 = known ++ [(name, position)] := by
  cases found : Named.value? known name with
  | some first => simp [noteName, found] at silent
  | none => exact ⟨Named.value?_eq_none.mp found, by simp [noteName, found]⟩

/-- Names that are distinct and not known once a new one is noted are distinct together with it. -/
theorem distinct_cons {known : FirstPositions} {name : String} {position : Position}
    {names : List String} (new : name ∉ Named.names known) (distinct : names.Nodup)
    (unseen : ∀ other ∈ names, other ∉ Named.names (known ++ [(name, position)])) :
    (name :: names).Nodup ∧ ∀ other ∈ name :: names, other ∉ Named.names known := by
  rw [Named.names, List.map_append] at unseen
  refine ⟨List.nodup_cons.mpr ⟨fun again => ?_, distinct⟩, List.forall_mem_cons.mpr ⟨new, ?_⟩⟩
  · exact unseen name again (List.mem_append_right _ List.mem_cons_self)
  · exact fun other member isKnown => unseen other member (List.mem_append_left _ isKnown)

private theorem unseen_default (scope : Scope) (literal? : Option Literal) :
    ∀ visit ∈ (literal?.map (Walk.value registry scope)).getD [],
      ¬uniqueVariableNames.Sees visit := by
  intro visit member sees
  cases literal? with
  | none => cases member
  | some literal =>
      rw [Rule.Sees, Walk.kind_value scope literal visit member] at sees
      cases sees

private theorem noted_of_silent {definitions : List VariableDefinition} {scope : Scope}
    {later : List ScopedVisit} {known : FirstPositions}
    (silent : runVisits subject
      (definitions.flatMap (Walk.variableDefinition registry scope) ++ later)
        [⟨uniqueVariableNames, known⟩] = []) :
    (definitions.map VariableDefinition.name).Nodup ∧
      ∀ name ∈ definitions.map VariableDefinition.name, name ∉ Named.names known := by
  induction definitions generalizing known with
  | nil => exact ⟨List.nodup_nil, nofun⟩
  | cons head tail induction =>
      rw [List.flatMap_cons, List.append_assoc, Walk.variableDefinition, List.cons_append] at silent
      have sees (scope : Scope) : uniqueVariableNames.Sees ⟨scope, .variableDefinition head⟩ := rfl
      have here := Rule.quiet_step (sees _) silent
      rcases noteName_silent here.1 with ⟨new, noted⟩
      rw [Rule.run_unseen (unseen_default _ _)] at here
      have rest := induction here.2
      exact distinct_cons new rest.1 (noted ▸ rest.2)

/-- The variables of an operation have different names. -/
theorem variables_distinct (silent : document.validate registry [uniqueVariableNames] = [])
    (member : operation ∈ document.operations) :
    (operation.variableDefinitions.map VariableDefinition.name).Nodup := by
  rcases List.append_of_mem (Document.mem_operations.mp member) with ⟨before, after, isList⟩
  have isWalk : document.walk registry =
      (⟨{}, .enterDocument⟩ :: before.flatMap (Walk.definition registry)) ++
        (Walk.operation registry operation ++
          (after.flatMap (Walk.definition registry) ++ [⟨{}, .leaveDocument⟩])) := by
    simp [Document.walk, isList, Walk.definition]
  rw [validate_one, isWalk] at silent
  rcases Rule.quiet_later silent with ⟨state, silent⟩
  rw [Walk.operation, List.cons_append] at silent
  have sees (scope : Scope) : uniqueVariableNames.Sees ⟨scope, .enterOperation operation⟩ := rfl
  have entered := (Rule.quiet_step (sees _) silent).2
  simp only [List.append_assoc] at entered
  exact (noted_of_silent entered).1

end Rules

/-! ## Arguments in the walk -/

namespace Walk

variable {registry : Registry} {scope : Scope} {definition : FieldDefinition}
  {argument : String × Literal} {visits : List ScopedVisit}

/-- Some visits come by an argument, with its definition among those it is written for, and by
everything in its value. -/
structure Offers (registry : Registry) (visits : List ScopedVisit)
    (definitions : List InputValueDefinition) (argument : String × Literal) (scope : Scope) :
    Prop where
  arguments : scope.arguments = some definitions
  inputType : scope.inputType =
    (Named.find? definitions argument.1).map InputValueDefinition.type
  input : scope.input = Named.find? definitions argument.1
  shown : ⟨scope, .argument argument.1 argument.2⟩ ∈ visits
  values : value registry scope argument.2 ⊆ visits

private theorem Offers.at_site {definitions : List InputValueDefinition}
    (offers : Offers registry visits definitions argument scope)
    {input : InputValueDefinition}
    (found : Named.find? definitions argument.1 = some input) : At scope input.site where
  type := by
    rw [offers.inputType, found]
    rfl
  default := by
    rw [offers.input, found]
    rfl

theorem Offers.mono {definitions : List InputValueDefinition}
    (offers : Offers registry visits definitions argument scope)
    {others : List ScopedVisit} (within : visits ⊆ others) :
    Offers registry others definitions argument scope :=
  { offers with
    shown := within offers.shown
    values := List.Subset.trans offers.values within }

/-- Some visits come by an argument of a field and by everything in its value. -/
structure Writes (registry : Registry) (visits : List ScopedVisit) (definition : FieldDefinition)
    (argument : String × Literal) (scope : Scope) : Prop
    extends Offers registry visits definition.arguments argument scope where
  field : scope.field = some definition

private theorem Writes.mono (writes : Writes registry visits definition argument scope)
    {others : List ScopedVisit} (within : visits ⊆ others) :
    Writes registry others definition argument scope :=
  { writes.toOffers.mono within with field := writes.field }

/-- The scope of what is written for one of some arguments. -/
def argumentScope (scope : Scope) (definitions : List InputValueDefinition) (name : String) :
    Scope :=
  inputScope { scope with arguments := some definitions } (Named.find? definitions name)

theorem offers_arguments {written : ArgumentList} (definitions : List InputValueDefinition)
    (member : argument ∈ written) :
    Offers registry (arguments registry scope written (some definitions)) definitions argument
      (argumentScope scope definitions argument.1) := by
  have shown : ⟨argumentScope scope definitions argument.1, .argument argument.1 argument.2⟩ ::
      value registry (argumentScope scope definitions argument.1) argument.2 ⊆
        arguments registry scope written (some definitions) := fun visit visited =>
    List.mem_cons_of_mem _ (List.mem_flatMap.mpr ⟨argument, member, visited⟩)
  have parts := List.cons_subset.mp shown
  exact ⟨rfl, rfl, rfl, parts.1, parts.2⟩

/-- The walk enters a field with its definition and comes by all of its arguments. -/
private theorem visits_field {node : Field}
    (defined : fieldDefinition? registry scope node.name = some definition) :
    (∃ inside, inside.field = some definition ∧
      ⟨inside, .enterField node⟩ ∈ selection registry scope (.field node)) ∧
    ∀ argument ∈ node.arguments, ∃ inside,
      Writes registry (selection registry scope (.field node)) definition argument inside := by
  rcases node with ⟨position, label, name, written, applied, under⟩
  have isField : (fieldScope registry scope position name).field = some definition := defined
  rw [selection, field]
  refine ⟨⟨_, isField, List.mem_cons_self⟩, fun argument member => ?_⟩
  have offers : Offers registry (arguments registry (fieldScope registry scope position name)
      written (some definition.arguments)) definition.arguments argument _ :=
    offers_arguments definition.arguments member
  refine ⟨_, { offers.mono fun visit visited => List.mem_cons_of_mem _ ?_ with field := isField }⟩
  rw [isField]
  exact List.mem_append_left _ (List.mem_append_left _ (List.mem_append_left _ visited))

end Walk

/-! ## What the rules have nothing against -/

namespace Rules

variable {schema : Schema} {registry : Registry} {document : Document} {operation : Operation}
  {node : Field} {scope : Scope} {definition : FieldDefinition} {argument : String × Literal}
  {input : InputValueDefinition}

private theorem required_of_silent
    (silent : document.validate registry [providedRequiredArguments] = [])
    (entered : ⟨scope, .enterField node⟩ ∈ document.walk registry)
    (isField : scope.field = some definition) (member : input ∈ definition.arguments)
    (isRequired : input.isRequired = true) : input.name ∈ Named.names node.arguments := by
  have quiet := Rule.quiet_stateless silent entered rfl
  simp only [isField, List.map_eq_nil_iff] at quiet
  have notMissing := List.filter_eq_nil_iff.mp quiet input member
  simpa [isRequired] using notMissing

/-- Where the field or directive is known that arguments are written on, they are defined by it. -/
private theorem known_of_silent {definitions : List InputValueDefinition}
    (silent : document.validate registry [knownArgumentNames] = [])
    (offers : Walk.Offers registry (document.walk registry) definitions argument scope)
    (isKnown : scope.field ≠ none ∨ scope.directive ≠ none) :
    Named.find? definitions argument.1 ≠ none := by
  have quiet := Rule.quiet_stateless silent offers.shown rfl
  simp only [offers.arguments] at quiet
  split at quiet
  · rename_i known
    intro unknown
    rw [Named.contains, List.any_eq_true] at known
    rcases known with ⟨input, member, sameName⟩
    exact List.find?_eq_none.mp unknown input member sameName
  · cases directive : scope.directive with
    | some found =>
        rw [directive] at quiet
        cases quiet
    | none =>
        cases field : scope.field with
        | some found =>
            rw [directive, field] at quiet
            cases quiet
        | none =>
            rw [directive, field] at isKnown
            exact isKnown.elim (absurd rfl) (absurd rfl)

private theorem reads_of_silent {definitions : List InputValueDefinition}
    (silent : document.validate registry [valuesOfCorrectType] = [])
    (offers : Walk.Offers registry (document.walk registry) definitions argument scope)
    (found : Named.find? definitions argument.1 = some input) :
    (registry.coerceLiteral none argument.2).Reads input.type := by
  have quiet := Rule.quiet_stateless silent offers.shown rfl
  simp only [offers.inputType, found, Option.map_some] at quiet
  split at quiet
  · rename_i value isRead
    exact ⟨value, isRead⟩
  · cases quiet

/-- Every variable that is used is defined by the operation, and none is misplaced. -/
private theorem allowed_of_silent {subject : Subject} (yields : schema.Yields subject.registry)
    (passed : subject.Passed)
    (defines : subject.document.validate subject.registry [noUndefinedVariables] = [])
    (places : subject.document.validate subject.registry [variablesInAllowedPosition] = [])
    (member : operation ∈ subject.document.operations)
    (inputs : ∀ used ∈ operation.variableDefinitions,
      subject.registry.isInput (TypeRef.ofExpr used.type) = true)
    {around : Definition} (reaches : subject.Reaches operation around) {name : String}
    {site : InputSite} (isAt : Walk.At scope site)
    (visited : ⟨scope, .value (.variable name)⟩ ∈ Walk.definition subject.registry around) :
    ∃ used ∈ operation.variableDefinitions,
      used.name = name ∧ used.AllowedAt subject.registry site := by
  have defined : name ∈ definedNames operation := by
    rcases usageRule_judges yields passed defines member with ⟨used, silent, uses⟩
    have isUsed := uses around reaches scope (.variable name) (name, scope.position) visited rfl
    have notUndefined := List.filter_eq_nil_iff.mp (List.map_eq_nil_iff.mp silent) _ isUsed
    simpa using notUndefined
  rcases usageRule_judges yields passed places member with ⟨used, silent, uses⟩
  have isUsage : variableUsage? scope (.variable name) =
      some ⟨name, site.type, site.hasDefault, scope.position⟩ := by
    rw [variableUsage?, isAt.type, isAt.default]
    rfl
  have isUsed := uses around reaches scope _ _ visited isUsage
  have placed := List.filterMap_eq_nil_iff.mp silent _ isUsed
  exact allowed_of_placed inputs defined placed

end Rules

/-! ## Fields that an operation reaches -/

namespace Subject

variable {schema : Schema} {subject : Subject} {operation : Operation} {around : Definition}
  {selected : SelectedField} {definition : FieldDefinition}

/-- The walk through the definition where a field stands writes all of its arguments. -/
theorem HasField.writes (yields : schema.Yields subject.registry) (passed : subject.Passed)
    (listed : around ∈ subject.document.definitions)
    (has : (subject.only around).HasField selected)
    (defined : selected.definition = some definition) :
    (∃ scope, scope.field = some definition ∧
      ⟨scope, .enterField selected.field⟩ ∈ Walk.definition subject.registry around) ∧
    ∀ argument ∈ selected.field.arguments, ∃ scope,
      Walk.Writes subject.registry (Walk.definition subject.registry around) definition argument
        scope := by
  rcases has with ⟨owner, parent, selections, node, has, member, rfl⟩
  rcases has.visits yields passed listed member with ⟨scope, inside, shown⟩
  have isField : Walk.fieldDefinition? subject.registry scope node.name = some definition := by
    rw [Walk.fieldDefinition?, inside.here]
    exact defined
  rcases Walk.visits_field isField with ⟨⟨here, isHere, entered⟩, writes⟩
  refine ⟨⟨here, isHere, shown entered⟩, fun argument isArgument => ?_⟩
  rcases writes argument isArgument with ⟨there, writes⟩
  exact ⟨there, writes.mono shown⟩

theorem definition_subset_walk (listed : around ∈ subject.document.definitions) :
    Walk.definition subject.registry around ⊆ subject.document.walk subject.registry :=
  fun _ inside => List.mem_cons_of_mem _ (List.mem_append_left _
    (List.mem_flatMap.mpr ⟨around, listed, inside⟩))

/-- In an accepted document all arguments are vetted that stand in what an operation reaches, if
those that are required are written. -/
theorem vetted_of_offers (yields : schema.Yields subject.registry) (passed : subject.Passed)
    (silent : subject.document.validate subject.registry defaultPlan = [])
    (member : operation ∈ subject.document.operations)
    (inputs : ∀ used ∈ operation.variableDefinitions,
      subject.registry.isInput (TypeRef.ofExpr used.type) = true)
    (reaches : subject.Reaches operation around) {written : ArgumentList}
    {definitions : List InputValueDefinition} (distinct : (Named.names definitions).Nodup)
    (offers : ∀ argument ∈ written, ∃ scope, Walk.Offers subject.registry
      (Walk.definition subject.registry around) definitions argument scope)
    (required : ∀ input ∈ definitions, input.isRequired = true → input.name ∈ Named.names written) :
    ∀ input ∈ definitions, input.Vetted subject.registry operation written := by
  have within := definition_subset_walk (reaches.mem member)
  have silentRule (rule : Rule) (isRule : rule ∈ defaultPlan) :=
    silent_of_defaultPlan silent isRule
  intro input isInput
  have found : Named.find? definitions input.name = some input :=
    Named.find?_of_mem distinct isInput
  refine ⟨?_, fun literal isWritten name inner mentions => ?_⟩
  · rw [InputValueDefinition.Passes]
    cases isWritten : Named.value? written input.name with
    | some literal =>
        rcases offers _ (Named.value?_mem isWritten) with ⟨there, offers⟩
        exact Rules.reads_of_silent (silentRule _ (by simp [defaultPlan])) (offers.mono within)
          found
    | none =>
        cases isRequired : input.isRequired with
        | false => rfl
        | true =>
            exact absurd (required input isInput isRequired) (Named.value?_eq_none.mp isWritten)
  · rcases offers _ (Named.value?_mem isWritten) with ⟨there, offers⟩
    rcases Walk.visits_mentioned mentions (offers.at_site found) with ⟨innerScope, isAt, visited⟩
    exact Rules.allowed_of_silent yields passed (silentRule _ (by simp [defaultPlan]))
      (silentRule _ (by simp [defaultPlan])) member inputs reaches isAt (offers.values visited)

/-- In an accepted document the arguments of every field that an operation reaches are known, and
all of them are vetted. -/
theorem HasField.vetted (yields : schema.Yields subject.registry) (passed : subject.Passed)
    (silent : subject.document.validate subject.registry defaultPlan = [])
    (member : operation ∈ subject.document.operations)
    (inputs : ∀ used ∈ operation.variableDefinitions,
      subject.registry.isInput (TypeRef.ofExpr used.type) = true)
    (reaches : subject.Reaches operation around) (has : (subject.only around).HasField selected)
    (defined : selected.definition = some definition)
    (distinct : (Named.names definition.arguments).Nodup) :
    (∀ name ∈ Named.names selected.field.arguments,
      Named.find? definition.arguments name ≠ none) ∧
    ∀ input ∈ definition.arguments,
      input.Vetted subject.registry operation selected.field.arguments := by
  have within := definition_subset_walk (reaches.mem member)
  rcases has.writes yields passed (reaches.mem member) defined with
    ⟨⟨scope, isField, entered⟩, writes⟩
  constructor
  · intro name isName
    rcases List.mem_map.mp isName with ⟨argument, isArgument, rfl⟩
    rcases writes argument isArgument with ⟨there, writes⟩
    exact Rules.known_of_silent (silent_of_defaultPlan silent (by simp [defaultPlan]))
      (writes.toOffers.mono within) (.inl (by simp [writes.field]))
  · refine vetted_of_offers yields passed silent member inputs reaches distinct ?_ ?_
    · intro argument isArgument
      rcases writes argument isArgument with ⟨there, writes⟩
      exact ⟨there, writes.toOffers⟩
    · exact fun input isInput isRequired =>
        Rules.required_of_silent (silent_of_defaultPlan silent (by simp [defaultPlan]))
          (within entered) isField isInput isRequired

end Subject

end GraphQL
