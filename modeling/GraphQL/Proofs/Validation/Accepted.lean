import GraphQL.Proofs.Validation.Overlap

/-!
What a document owes to the default plan that reports nothing on it: every field is defined by the
type that it is selected on, and the fields of every selection set can be merged.
-/

namespace GraphQL

namespace Subject

structure Accepted (subject : Subject) : Prop where
  passed : subject.Passed
  defined : ∀ selected, subject.HasField selected → ∀ parent, selected.parent = some parent →
    ∃ definition, selected.definition = some definition
  merges : ∀ owner parent selections, subject.HasSelections owner parent selections →
    subject.FieldsCanMerge parent selections
  arguments : subject.DistinctArguments

variable {subject : Subject} {owner : Position} {parent : Option NamedType}
  {selections : List Selection} {scope : Scope}

private theorem WalksIn.enters_field (walks : subject.WalksIn owner parent selections scope)
    {node : Field} (member : .field node ∈ selections) :
    ⟨Walk.fieldScope subject.registry scope node.position node.name, .enterField node⟩ ∈
      subject.document.walk subject.registry := by
  apply walks.walks
  apply selection_subset_walk member
  cases node
  rw [Walk.selection, Walk.field]
  exact List.mem_cons_self

end Subject

/-- A rule of the default plan that reports nothing. -/
theorem silent_of_defaultPlan {document : Document} {registry : Registry}
    (silent : document.validate registry defaultPlan = []) {rule : Rule}
    (member : rule ∈ defaultPlan) : document.validate registry [rule] = [] :=
  validate_eq_nil.mp silent rule member

private theorem Rules.defined_of_silent {schema : Schema} {registry : Registry}
    {document : Document}
    (yields : schema.Yields registry) (passed : Subject.Passed ⟨registry, document⟩)
    (silent : document.validate registry [fieldsOnCorrectType] = []) {selected : SelectedField}
    (has : Subject.HasField ⟨registry, document⟩ selected) {parent : NamedType}
    (isParent : selected.parent = some parent) :
    ∃ definition, selected.definition = some definition := by
  rcases has with ⟨owner, around, selections, node, has, member, rfl⟩
  rcases has.walked yields passed (List.ne_nil_of_mem member) with ⟨scope, walks⟩
  have quiet := Rule.quiet_stateless silent (walks.enters_field member) rfl
  have isAround : scope.parent = some parent := walks.inside.here.trans isParent
  simp only [Walk.fieldScope, isAround] at quiet
  split at quiet
  · cases quiet
  · rename_i known
    cases defined : (SelectedField.on registry around node).definition with
    | some definition => exact ⟨definition, rfl⟩
    | none =>
        refine (known node parent rfl rfl ?_).elim
        rw [Walk.fieldDefinition?, isAround, ← isParent]
        exact defined

/-- What the default plan makes sure of. -/
theorem Subject.accepted_of_silent {schema : Schema} {registry : Registry} {document : Document}
    (yields : schema.Yields registry) (distinct : document.positions.Nodup)
    (silent : document.validate registry defaultPlan = []) :
    Subject.Accepted ⟨registry, document⟩ := by
  have others : document.validate registry otherRules = [] := by
    apply validate_eq_nil.mpr
    exact fun rule isOther => silent_of_defaultPlan silent (mem_defaultPlan.mpr (.inl isOther))
  have passed := passed_of_otherRules others
  have arguments : Subject.DistinctArguments ⟨registry, document⟩ := by
    rintro _ ⟨owner, parent, selections, node, has, member, rfl⟩
    exact has.distinct_arguments yields passed member
  rcases Rules.finished_of_silent yields passed distinct
    (silent_of_defaultPlan silent (mem_defaultPlan.mpr (.inr rfl))) with ⟨seen, finished⟩
  exact
    { passed := passed
      defined := fun selected has parent isParent =>
        Rules.defined_of_silent yields passed
          (silent_of_defaultPlan silent (by simp [defaultPlan])) has isParent
      merges := fun owner parent selections has =>
        Rules.fieldsCanMerge_of_finished finished arguments has
      arguments := arguments }

end GraphQL
