import GraphQL.Proofs.Validation.Usages

/-!
Where variables and spreads stand in a definition. The walk through a definition comes by each
variable that is written there, at the position of the node around it, and by each spread, in the
order in which they are written.
-/

namespace GraphQL

/-! ## What is written -/

/-- The variables in the arguments of a node at some position. -/
def ArgumentList.occurrences (written : ArgumentList) (around : Position) :
    List (String × Position) :=
  written.flatMap fun argument => argument.2.variableNames.map fun name => (name, around)

def Directive.occurrences (directive : Directive) : List (String × Position) :=
  ArgumentList.occurrences directive.arguments directive.position

mutual

/-- The variables in a selection, in order, each with the position of the node around it. -/
private def Selection.occurrences : Selection → List (String × Position)
  | .field node => node.occurrences
  | .spread node => node.directives.flatMap Directive.occurrences
  | .inline node => node.occurrences
termination_by structural selection => selection

private def Field.occurrences : Field → List (String × Position)
  | ⟨position, _, _, written, applied, under⟩ =>
      written.occurrences position ++ applied.flatMap Directive.occurrences ++ occurrencesOf under
termination_by structural field => field

private def InlineFragment.occurrences : InlineFragment → List (String × Position)
  | ⟨_, _, applied, under⟩ => applied.flatMap Directive.occurrences ++ occurrencesOf under
termination_by structural fragment => fragment

def occurrencesOf : List Selection → List (String × Position)
  | [] => []
  | selection :: selections => selection.occurrences ++ occurrencesOf selections
termination_by structural selections => selections

end

/-- The variables in a default. -/
def VariableDefinition.occurrences (definition : VariableDefinition) : List (String × Position) :=
  definition.default.toList.flatMap fun literal =>
    literal.variableNames.map fun name => (name, definition.position)

def Operation.occurrences (operation : Operation) : List (String × Position) :=
  operation.variableDefinitions.flatMap VariableDefinition.occurrences ++
    operation.directives.flatMap Directive.occurrences ++ occurrencesOf operation.selections

def Fragment.occurrences (fragment : Fragment) : List (String × Position) :=
  fragment.directives.flatMap Directive.occurrences ++ occurrencesOf fragment.selections

namespace Rules

open Walk

variable {registry : Registry}

/-! ## What the walk comes by -/

/-- The variable that is visited, and the position of the node around it. -/
def occurrenceAt? : ScopedVisit → Option (String × Position) := usageAt? variableAtPosition?

mutual

private theorem occurrences_value (scope : Scope) :
    (literal : Literal) → (value registry scope literal).filterMap occurrenceAt? =
      literal.variableNames.map fun name => (name, scope.position)
  | .list items => by
      rw [value, List.filterMap_cons_none rfl, Literal.variableNames]
      exact occurrences_values _ items
  | .object fields => by
      rw [value, List.filterMap_cons_none rfl, Literal.variableNames]
      exact occurrences_fieldValues scope _ fields
  | .variable _ => rfl
  | .int _ => rfl
  | .float _ => rfl
  | .string _ => rfl
  | .boolean _ => rfl
  | .null => rfl
  | .enum _ => rfl

private theorem occurrences_values (scope : Scope) :
    (items : List Literal) → (values registry scope items).filterMap occurrenceAt? =
      (Literal.itemVariables items).map fun name => (name, scope.position)
  | [] => rfl
  | item :: items => by
      rw [values, List.filterMap_append, occurrences_value scope item,
        occurrences_values scope items, Literal.itemVariables, List.map_append]

private theorem occurrences_fieldValues (scope : Scope)
    (definitions : Option (List InputValueDefinition)) :
    (fields : List (String × Literal)) →
      (fieldValues registry scope definitions fields).filterMap occurrenceAt? =
        (Literal.fieldVariables fields).map fun name => (name, scope.position)
  | [] => rfl
  | (_, item) :: fields => by
      rw [fieldValues, List.filterMap_append, occurrences_value _ item,
        occurrences_fieldValues scope definitions fields, Literal.fieldVariables, List.map_append]
      rfl

end

private theorem occurrences_arguments (scope : Scope) (written : ArgumentList)
    (definitions : Option (List InputValueDefinition)) :
    (arguments registry scope written definitions).filterMap occurrenceAt? =
      written.occurrences scope.position := by
  rw [arguments, List.filterMap_cons_none rfl, List.filterMap_flatMap, ArgumentList.occurrences]
  congr 1
  funext argument
  rw [List.filterMap_cons_none rfl, occurrences_value]
  rfl

private theorem occurrences_directives (scope : Scope) (location : DirectiveLocation)
    (applied : List Directive) :
    (directives registry scope location applied).filterMap occurrenceAt? =
      applied.flatMap Directive.occurrences := by
  rw [directives, List.filterMap_flatMap]
  congr 1
  funext directive
  rw [List.filterMap_cons_none rfl, occurrences_arguments]
  rfl

private theorem occurrences_variableDefinition (scope : Scope) (definition : VariableDefinition) :
    (variableDefinition registry scope definition).filterMap occurrenceAt? =
      definition.occurrences := by
  rw [variableDefinition, List.filterMap_cons_none rfl, VariableDefinition.occurrences]
  cases definition.default with
  | none => rfl
  | some literal => simpa using occurrences_value _ literal

private theorem occurrences_selectionSet {under : List Selection}
    (each : ∀ scope, (selections registry scope under).filterMap occurrenceAt? =
      occurrencesOf under) (scope : Scope) (owner : Position) :
    (selectionSet registry scope owner under).filterMap occurrenceAt? = occurrencesOf under := by
  rw [selectionSet, List.filterMap_cons_none rfl, List.filterMap_append, each]
  exact List.append_nil _

mutual

private theorem occurrences_selection :
    (selection : Selection) → ∀ scope,
      (Walk.selection registry scope selection).filterMap occurrenceAt? = selection.occurrences
  | .field ⟨position, label, name, written, applied, under⟩ => by
      intro scope
      rw [selection, field, Selection.occurrences, Field.occurrences, List.filterMap_cons_none rfl,
        List.filterMap_append, List.filterMap_append, List.filterMap_append, occurrences_arguments,
        occurrences_directives, List.filterMap_cons_none rfl, List.filterMap_nil, List.append_nil]
      congr 1
      cases under with
      | nil => rfl
      | cons head tail =>
          exact occurrences_selectionSet (occurrences_selections (head :: tail)) _ position
  | .spread ⟨_, _, applied⟩ => by
      intro scope
      rw [selection, Selection.occurrences, List.filterMap_cons_none rfl]
      exact occurrences_directives _ _ applied
  | .inline ⟨position, _, applied, under⟩ => by
      intro scope
      rw [selection, inlineFragment, Selection.occurrences, InlineFragment.occurrences,
        List.filterMap_cons_none rfl, List.filterMap_append, List.filterMap_append,
        occurrences_directives]
      exact (List.append_nil _).trans (congrArg (List.append _)
        (occurrences_selectionSet (occurrences_selections under) _ position))

private theorem occurrences_selections :
    (under : List Selection) → ∀ scope,
      (selections registry scope under).filterMap occurrenceAt? = occurrencesOf under
  | [] => fun _ => rfl
  | head :: tail => by
      intro scope
      rw [selections, List.filterMap_append, occurrences_selection head,
        occurrences_selections tail, occurrencesOf]

end

/-- The walk through an operation comes by the variables that occur in it. -/
theorem occurrences_operation (operation : Operation) :
    (Walk.operation registry operation).filterMap occurrenceAt? = operation.occurrences := by
  rw [Walk.operation, List.filterMap_cons_none rfl, List.filterMap_append, List.filterMap_append,
    List.filterMap_append, List.filterMap_flatMap, occurrences_directives,
    occurrences_selectionSet (occurrences_selections _), List.filterMap_cons_none rfl,
    List.filterMap_nil, List.append_nil, Operation.occurrences]
  simp only [occurrences_variableDefinition]

theorem occurrences_fragment (fragment : Fragment) :
    (Walk.fragment registry fragment).filterMap occurrenceAt? = fragment.occurrences := by
  rw [Walk.fragment, List.filterMap_cons_none rfl, List.filterMap_append, List.filterMap_append,
    occurrences_directives, occurrences_selectionSet (occurrences_selections _),
    List.filterMap_cons_none rfl, List.filterMap_nil, List.append_nil, Fragment.occurrences]

/-! ## Spreads -/

private theorem spreads_attached {visits : List ScopedVisit}
    (attached : Each Visit.IsAttached visits) :
    visits.filterMap spreadAt? = [] := by
  rw [List.filterMap_eq_nil_iff]
  rintro ⟨scope, visit⟩ member
  have isAttached := attached _ member
  cases visit with
  | spread spread => cases isAttached
  | _ => rfl

private theorem spreads_selectionSet {under : List Selection}
    (each : ∀ scope, (selections registry scope under).filterMap spreadAt? =
      (spreadsOf under).map FragmentSpread.name) (scope : Scope) (owner : Position) :
    (selectionSet registry scope owner under).filterMap spreadAt? =
      (spreadsOf under).map FragmentSpread.name := by
  rw [selectionSet, List.filterMap_cons_none rfl, List.filterMap_append, each]
  exact List.append_nil _

mutual

private theorem spreads_selection :
    (selection : Selection) → ∀ scope,
      (Walk.selection registry scope selection).filterMap spreadAt? =
        selection.spreads.map FragmentSpread.name
  | .field ⟨position, label, name, written, applied, under⟩ => by
      intro scope
      rw [selection, field, Selection.spreads, Field.spreads, List.filterMap_cons_none rfl,
        List.filterMap_append, List.filterMap_append, List.filterMap_append,
        spreads_attached (attached_arguments _ _ _), spreads_attached (attached_directives _ _ _),
        List.filterMap_cons_none rfl, List.filterMap_nil, List.append_nil, List.nil_append,
        List.nil_append]
      cases under with
      | nil => rfl
      | cons head tail => exact spreads_selectionSet (spreads_selections (head :: tail)) _ position
  | .spread ⟨_, name, applied⟩ => by
      intro scope
      rw [selection, Selection.spreads]
      exact congrArg (List.cons name) (spreads_attached (attached_directives _ _ applied))
  | .inline ⟨position, _, applied, under⟩ => by
      intro scope
      rw [selection, inlineFragment, Selection.spreads, InlineFragment.spreads,
        List.filterMap_cons_none rfl, List.filterMap_append, List.filterMap_append,
        spreads_attached (attached_directives _ _ _)]
      exact (List.append_nil _).trans (spreads_selectionSet (spreads_selections under) _ position)

private theorem spreads_selections :
    (under : List Selection) → ∀ scope,
      (selections registry scope under).filterMap spreadAt? =
        (spreadsOf under).map FragmentSpread.name
  | [] => fun _ => rfl
  | head :: tail => by
      intro scope
      rw [selections, List.filterMap_append, spreads_selection head, spreads_selections tail,
        spreadsOf, List.map_append]

end

/-- The walk through an operation comes by the spreads in it. -/
theorem spreads_operation (operation : Operation) :
    (Walk.operation registry operation).filterMap spreadAt? =
      (spreadsOf operation.selections).map FragmentSpread.name := by
  rw [Walk.operation, List.filterMap_cons_none rfl, List.filterMap_append, List.filterMap_append,
    List.filterMap_append, spreads_attached (.flatMap fun _ _ => attached_variableDefinition _ _),
    spreads_attached (attached_directives _ _ _), spreads_selectionSet (spreads_selections _),
    List.filterMap_cons_none rfl, List.filterMap_nil, List.append_nil, List.nil_append,
    List.nil_append]

theorem spreads_fragment (fragment : Fragment) :
    (Walk.fragment registry fragment).filterMap spreadAt? =
      (spreadsOf fragment.selections).map FragmentSpread.name := by
  rw [Walk.fragment, List.filterMap_cons_none rfl, List.filterMap_append, List.filterMap_append,
    spreads_attached (attached_directives _ _ _), spreads_selectionSet (spreads_selections _),
    List.filterMap_cons_none rfl, List.filterMap_nil, List.append_nil, List.nil_append]

end Rules

end GraphQL
