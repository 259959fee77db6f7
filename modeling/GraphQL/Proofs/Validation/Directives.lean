import GraphQL.Proofs.Validation.Inputs

/-!
Directives of selections in an accepted document: they are known, their arguments are vetted, and
those that may not be repeated are not.
-/

namespace GraphQL

/-! ## Directives in the walk -/

namespace Walk

variable {registry : Registry} {scope : Scope} {location : DirectiveLocation}
  {directive : Directive} {applied : List Directive}

private theorem visits_directives (registry : Registry) (scope : Scope) (node : Selection) :
    ∃ inside location,
      directives registry inside location node.directives ⊆ selection registry scope node := by
  cases node with
  | field node =>
      rcases node with ⟨position, label, name, written, applied, under⟩
      refine ⟨fieldScope registry scope position name, .field, ?_⟩
      rw [selection, field]
      exact fun visit visited => List.mem_cons_of_mem _ (List.mem_append_left _
        (List.mem_append_left _ (List.mem_append_right _ visited)))
  | spread node =>
      refine ⟨{ scope with position := node.position }, .fragmentSpread, ?_⟩
      rw [selection]
      exact List.subset_cons_self _ _
  | inline node =>
      rcases node with ⟨position, condition, applied, under⟩
      refine ⟨inlineScope registry scope position condition, .inlineFragment, ?_⟩
      rw [selection, inlineFragment]
      exact fun visit visited => List.mem_cons_of_mem _ (List.mem_append_left _
        (List.mem_append_left _ visited))

/-- The scope of a directive. -/
private def directiveScope (registry : Registry) (scope : Scope) (directive : Directive) : Scope :=
  { scope with directive := registry.directive? directive.name, position := directive.position }

/-- The walk comes by each directive, with its definition if it has one, and by its arguments. -/
private theorem visits_directive (registry : Registry) (scope : Scope)
    (location : DirectiveLocation) (member : directive ∈ applied) :
    ⟨directiveScope registry scope directive, .directive directive location⟩ ∈
      directives registry scope location applied ∧
    arguments registry (directiveScope registry scope directive) directive.arguments
        ((registry.directive? directive.name).map DirectiveDefinition.arguments) ⊆
      directives registry scope location applied := by
  have shown : ⟨directiveScope registry scope directive, .directive directive location⟩ ::
      arguments registry (directiveScope registry scope directive) directive.arguments
        ((registry.directive? directive.name).map DirectiveDefinition.arguments) ⊆
      directives registry scope location applied :=
    fun visit visited => List.mem_flatMap.mpr ⟨directive, member, visited⟩
  exact List.cons_subset.mp shown

end Walk

/-! ## What the rules have nothing against -/

namespace Rules

variable {registry : Registry} {document : Document} {directive : Directive} {scope : Scope}
  {location : DirectiveLocation} {definition : DirectiveDefinition} {applied : List Directive}

private theorem required_of_silent_directive
    (silent : document.validate registry [providedRequiredArguments] = [])
    (shown : ⟨scope, .directive directive location⟩ ∈ document.walk registry)
    (isKnown : scope.directive = some definition) {input : InputValueDefinition}
    (member : input ∈ definition.arguments) (isRequired : input.isRequired = true) :
    input.name ∈ Named.names directive.arguments := by
  have quiet := Rule.quiet_stateless silent shown rfl
  simp only [isKnown, List.map_eq_nil_iff] at quiet
  have notMissing := List.filter_eq_nil_iff.mp quiet input member
  simpa [isRequired] using notMissing

/-- Take in a directive that may not be repeated. -/
private def noteDirective :
    FirstPositions × List Finding → Directive → FirstPositions × List Finding :=
  fun (known, findings) directive =>
    let (known, found) := noteName known directive.name directive.position
      s!"The directive \"@{directive.name}\" can only be used once at this location."
    (known, findings ++ found)

private theorem distinct_of_noted {known : FirstPositions} {findings : List Finding}
    (silent : (applied.foldl noteDirective (known, findings)).2 = []) :
    findings = [] ∧ (applied.map Directive.name).Nodup ∧
      ∀ name ∈ applied.map Directive.name, name ∉ Named.names known := by
  induction applied generalizing known findings with
  | nil => exact ⟨silent, List.nodup_nil, nofun⟩
  | cons head tail induction =>
      rw [List.foldl_cons] at silent
      rcases induction silent with ⟨nothing, distinct, unseen⟩
      rcases List.append_eq_nil_iff.mp nothing with ⟨before, here⟩
      rcases noteName_silent here with ⟨new, noted⟩
      have unseen : ∀ name ∈ tail.map Directive.name,
          name ∉ Named.names (known ++ [(head.name, head.position)]) := by
        rw [← noted]
        exact unseen
      exact ⟨before, distinct_cons new distinct unseen⟩

private theorem distinct_of_unrepeated (silent : repeatedDirectives registry applied = []) :
    ((applied.filter fun directive => !isRepeatable registry directive).map
      Directive.name).Nodup :=
  have silent : ((applied.filter fun directive => !isRepeatable registry directive).foldl
      noteDirective ([], [])).2 = [] := silent
  (distinct_of_noted silent).2.1

/-- A directive that may not be repeated is the only one of its name. -/
theorem find?_of_unrepeated (silent : repeatedDirectives registry applied = [])
    (member : directive ∈ applied) (known : registry.directive? directive.name = some definition)
    (once : definition.repeatable = false) :
    applied.find? (fun other => other.name == directive.name) = some directive := by
  cases found : applied.find? fun other => other.name == directive.name with
  | none => exact absurd (beq_self_eq_true _) (List.find?_eq_none.mp found directive member)
  | some other =>
      have sameName : other.name = directive.name := by simpa using List.find?_some found
      have unrepeated {node : Directive} (listed : node ∈ applied)
          (isName : node.name = directive.name) :
          node ∈ applied.filter fun directive => !isRepeatable registry directive := by
        rw [List.mem_filter, isRepeatable, isName, known]
        exact ⟨listed, by simp [once]⟩
      rw [List.inj_on_of_nodup_map (distinct_of_unrepeated silent)
        (unrepeated (List.mem_of_find?_eq_some found) sameName) (unrepeated member rfl) sameName]

end Rules

/-! ## Selections that an operation reaches -/

namespace Subject

variable {schema : Schema} {subject : Subject} {operation : Operation} {around : Definition}
  {owner : Position} {parent : Option NamedType} {selections : List Selection}
  {selection : Selection} {directive : Directive} {definition : DirectiveDefinition}

/-- In an accepted document no selection repeats a directive that may not be repeated. -/
theorem HasSelections.unrepeated (yields : schema.Yields subject.registry) (passed : subject.Passed)
    (silent : subject.document.validate subject.registry [Rules.uniqueDirectivesPerLocation] = [])
    (listed : around ∈ subject.document.definitions)
    (has : (subject.only around).HasSelections owner parent selections)
    (member : selection ∈ selections) :
    Rules.repeatedDirectives subject.registry selection.directives = [] := by
  rcases has.visits yields passed listed member with ⟨scope, _, shown⟩
  have within := List.Subset.trans shown (definition_subset_walk listed)
  cases selection with
  | field node =>
      rcases node with ⟨position, label, name, written, applied, under⟩
      rw [Walk.selection, Walk.field] at within
      exact Rule.quiet_stateless silent (within List.mem_cons_self) rfl
  | spread node =>
      rw [Walk.selection] at within
      exact Rule.quiet_stateless silent (within List.mem_cons_self) rfl
  | inline node =>
      rcases node with ⟨position, condition, applied, under⟩
      rw [Walk.selection, Walk.inlineFragment] at within
      exact Rule.quiet_stateless silent (within List.mem_cons_self) rfl

/-- In an accepted document the arguments of all directives are vetted that stand on selections
which an operation reaches. -/
theorem HasSelections.vetted (yields : schema.Yields subject.registry) (passed : subject.Passed)
    (silent : subject.document.validate subject.registry defaultPlan = [])
    (isOperation : operation ∈ subject.document.operations)
    (inputs : ∀ used ∈ operation.variableDefinitions,
      subject.registry.isInput (TypeRef.ofExpr used.type) = true)
    (reaches : subject.Reaches operation around)
    (has : (subject.only around).HasSelections owner parent selections)
    (member : selection ∈ selections) (isDirective : directive ∈ selection.directives)
    (known : subject.registry.directive? directive.name = some definition)
    (distinct : (Named.names definition.arguments).Nodup) :
    ∀ input ∈ definition.arguments,
      input.Vetted subject.registry operation directive.arguments := by
  have listed := reaches.mem isOperation
  rcases has.visits yields passed listed member with ⟨scope, _, shown⟩
  rcases Walk.visits_directives subject.registry scope selection with ⟨inside, location, applied⟩
  have within := List.Subset.trans applied shown
  have visited := Walk.visits_directive subject.registry inside location isDirective
  rw [known, Option.map_some] at visited
  refine vetted_of_offers yields passed silent isOperation inputs reaches distinct ?_ ?_
  · intro argument isArgument
    exact ⟨_, (Walk.offers_arguments definition.arguments isArgument).mono
      (List.Subset.trans visited.2 within)⟩
  · exact fun input isInput isRequired =>
      Rules.required_of_silent_directive (silent_of_defaultPlan silent (by simp [defaultPlan]))
        (definition_subset_walk listed (within visited.1)) known isInput isRequired

end Subject

end GraphQL
