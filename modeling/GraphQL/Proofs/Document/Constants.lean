import GraphQL.Proofs.Document.Objects
import GraphQL.Proofs.Document.Positions

/-!
Constants hold no variables: what is read as one has none in it, so neither has the default of a
variable in a document that was read.
-/

namespace GraphQL

namespace Grammar

private theorem free_inherited : Inherited true fun literal => literal.variableNames = [] where
  mentioned isRead := by cases isRead
  int _ := rfl
  float _ := rfl
  string _ := rfl
  boolean _ := rfl
  null := rfl
  enum _ := rfl
  list items each := by
    rw [Literal.variableNames, Literal.itemVariables_eq, List.flatMap_eq_nil_iff]
    exact each
  object fields _ each := by
    rw [Literal.variableNames, Literal.fieldVariables_eq, List.flatMap_eq_nil_iff]
    exact each

theorem literal_free {tokens : List Located} {read : Read Literal tokens}
    (found : literal true tokens = some read) : read.value.variableNames = [] := by
  rcases literal_takes true tokens found with ⟨taken, _, derived⟩
  exact literal_gives free_inherited derived

end Grammar

/-! ## Defaults of variables -/

/-- No variable occurs in the defaults of variables. -/
def Operation.ConstantDefaults (operation : Operation) : Prop :=
  ∀ definition ∈ operation.variableDefinitions, ∀ literal ∈ definition.default,
    literal.variableNames = []

private theorem Grammar.DerivesDefinition.constantDefaults {tokens : List Located}
    {definition : Definition} (derived : DerivesDefinition tokens definition) :
    ∀ operation, definition = .operation operation → operation.ConstantDefaults := by
  rintro operation isOperation
  cases derived with
  | query _ _ =>
      cases isOperation
      exact List.forall_mem_nil _
  | operation _ areDefined _ _ =>
      cases isOperation
      exact areDefined.gives fun _ _ => DerivesVariable.default_gives free_inherited
  | fragment _ _ _ => cases isOperation

/-- In a document that was read the defaults of variables are constants. -/
theorem Document.constantDefaults_of_text {text : String} {document : Document}
    (read : Document.ofText? text = some document) :
    ∀ operation ∈ document.operations, operation.ConstantDefaults := by
  intro operation listed
  rcases derives_of_text read with ⟨tokens, _, each⟩
  have constant : ∀ definition ∈ document.definitions, ∀ operation,
      definition = .operation operation → operation.ConstantDefaults :=
    each.gives fun _ _ => Grammar.DerivesDefinition.constantDefaults
  exact constant _ (mem_operations.mp listed) operation rfl

end GraphQL
