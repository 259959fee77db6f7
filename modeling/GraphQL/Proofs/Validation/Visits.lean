import GraphQL.Validation.Walk

/-!
What holds of all visits in a part of the walk: it holds of the whole if it holds of the values in
it and of every visit to anything else.
-/

namespace GraphQL

/-- The kinds of visits that enter or leave the document or a definition. -/
def NodeKind.bounds : NodeKind → Bool
  | .document => true
  | .operation => true
  | .fragment => true
  | _ => false

/-- A visit that does not enter or leave the document or a definition. -/
def Visit.IsInner (visit : Visit) : Prop := visit.kind.bounds = false

namespace Walk

/-- Visits that all have a property. -/
def Each (holds : Visit → Prop) (visits : List ScopedVisit) : Prop :=
  ∀ visit ∈ visits, holds visit.visit

namespace Each

variable {holds : Visit → Prop}

theorem nil : Each holds [] := fun _ member => by cases member

theorem cons {visit : ScopedVisit} {visits : List ScopedVisit} (here : holds visit.visit)
    (later : Each holds visits) : Each holds (visit :: visits) :=
  List.forall_mem_cons.mpr ⟨here, later⟩

theorem append {left right : List ScopedVisit} (eachLeft : Each holds left)
    (eachRight : Each holds right) : Each holds (left ++ right) :=
  List.forall_mem_append.mpr ⟨eachLeft, eachRight⟩

theorem flatMap {α : Type} {items : List α} {visits : α → List ScopedVisit}
    (each : ∀ item ∈ items, Each holds (visits item)) : Each holds (items.flatMap visits) :=
  List.forall_mem_flatMap.mpr each

end Each

/-- A property of all visits inside definitions but those to values. -/
def Beside (holds : Visit → Prop) : Prop :=
  ∀ visit : Visit, visit.kind ≠ .value → visit.IsInner → holds visit

/-- A value all of whose visits have a property, wherever it stands. -/
def EachOfValue (holds : Visit → Prop) (registry : Registry) (literal : Literal) : Prop :=
  ∀ scope, Each holds (value registry scope literal)

def EachOfArguments (holds : Visit → Prop) (registry : Registry) (written : ArgumentList) : Prop :=
  ∀ argument ∈ written, EachOfValue holds registry argument.2

def EachOfSelection (holds : Visit → Prop) (registry : Registry) (node : Selection) : Prop :=
  ∀ scope, Each holds (selection registry scope node)

section

variable {holds : Visit → Prop} {registry : Registry} {written : ArgumentList}
  {applied : List Directive} {under : List Selection} {position : Position}

private theorem each_arguments (beside : Beside holds)
    (values : EachOfArguments holds registry written)
    (scope : Scope) (definitions : Option (List InputValueDefinition)) :
    Each holds (arguments registry scope written definitions) :=
  .cons (beside _ NodeKind.noConfusion rfl) (.flatMap fun argument member =>
    .cons (beside _ NodeKind.noConfusion rfl) (values argument member _))

theorem each_directives (beside : Beside holds)
    (values : ∀ directive ∈ applied, EachOfArguments holds registry directive.arguments)
    (scope : Scope) (location : DirectiveLocation) :
    Each holds (directives registry scope location applied) :=
  .flatMap fun directive member => .cons (beside _ NodeKind.noConfusion rfl)
    (each_arguments beside (values directive member) _ _)

theorem each_variableDefinition (beside : Beside holds) {definition : VariableDefinition}
    (values : ∀ literal ∈ definition.default, EachOfValue holds registry literal)
    (scope : Scope) : Each holds (variableDefinition registry scope definition) := by
  refine .cons (beside _ NodeKind.noConfusion rfl) ?_
  cases isDefault : definition.default with
  | none => exact .nil
  | some literal => exact values literal isDefault _

private theorem each_selections (each : ∀ node ∈ under, EachOfSelection holds registry node)
    (scope : Scope) : Each holds (selections registry scope under) := by
  induction under with
  | nil => exact .nil
  | cons head tail induction =>
      have parts := List.forall_mem_cons.mp each
      rw [selections]
      exact (parts.1 scope).append (induction parts.2)

theorem each_selectionSet (beside : Beside holds)
    (each : ∀ node ∈ under, EachOfSelection holds registry node) (scope : Scope)
    (owner : Position) : Each holds (selectionSet registry scope owner under) :=
  .cons (beside _ NodeKind.noConfusion rfl) ((each_selections each _).append
    (.cons (beside _ NodeKind.noConfusion rfl) .nil))

theorem each_field (beside : Beside holds) {label : Option String} {name : String}
    (values : EachOfArguments holds registry written)
    (directed : ∀ directive ∈ applied, EachOfArguments holds registry directive.arguments)
    (each : ∀ node ∈ under, EachOfSelection holds registry node) :
    EachOfSelection holds registry
      (.field ⟨position, label, name, written, applied, under⟩) := by
  intro scope
  rw [selection, field]
  refine .cons (beside _ NodeKind.noConfusion rfl) (((Each.append
    (each_arguments beside values _ _) (each_directives beside directed _ _)).append ?_).append
      (.cons (beside _ NodeKind.noConfusion rfl) .nil))
  split
  · exact .nil
  · exact each_selectionSet beside each _ position

theorem each_spread (beside : Beside holds) {name : String}
    (directed : ∀ directive ∈ applied, EachOfArguments holds registry directive.arguments) :
    EachOfSelection holds registry (.spread ⟨position, name, applied⟩) := by
  intro scope
  rw [selection]
  exact .cons (beside _ NodeKind.noConfusion rfl) (each_directives beside directed _ _)

theorem each_inline (beside : Beside holds) {condition : Option String}
    (directed : ∀ directive ∈ applied, EachOfArguments holds registry directive.arguments)
    (each : ∀ node ∈ under, EachOfSelection holds registry node) :
    EachOfSelection holds registry (.inline ⟨position, condition, applied, under⟩) := by
  intro scope
  rw [selection, inlineFragment]
  exact .cons (beside _ NodeKind.noConfusion rfl) (((each_directives beside directed _ _).append
    (each_selectionSet beside each _ position)).append
      (.cons (beside _ NodeKind.noConfusion rfl) .nil))

end

end Walk

end GraphQL
