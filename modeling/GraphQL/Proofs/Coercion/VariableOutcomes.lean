import GraphQL.Proofs.Coercion.Conformance
import GraphQL.Proofs.Document.Constants

/-!
The variables of a request one by one. What becomes of a variable is up to its definition and to
what is provided under its name: it has the entry, or gives the error, that it would alone.
-/

namespace GraphQL

variable {registry : Registry} {provided : List (String × Json)}

/-- The operation with no variable but one. -/
def Operation.only (operation : Operation) (definition : VariableDefinition) : Operation :=
  { operation with variableDefinitions := [definition] }

namespace VariableDefinition

/-- The entry of a variable is what its definition makes of what is provided for it, alone and among
others. -/
structure Gets (registry : Registry) (provided : List (String × Json)) (operation : Operation)
    (definition : VariableDefinition) (outcome : Option VariableValue) : Prop where
  /-- A provided value is coerced, else the default. -/
  source : definition.Source registry provided outcome
  present : outcome.isSome = true ↔ (Named.value? provided definition.name).isSome = true ∨
    definition.default.isSome = true
  alone : ((operation.only definition).coerceVariables registry provided).map
    (·.get? definition.name) = .ok outcome
  /-- Null comes from null. -/
  null : registry.SolidInputs → operation.ConstantDefaults → ∀ entry ∈ outcome,
    entry.value = .null →
      (TypeRef.ofExpr definition.type).isNonNull = false ∧ definition.GivenNull provided

end VariableDefinition

/-! ## One definition among others -/

namespace Operation

variable {operation : Operation}

private theorem coerceVariables_only (definition : VariableDefinition) :
    (operation.only definition).coerceVariables registry provided =
      match definition.error? registry provided with
      | none => .ok (definition.binding? registry provided).toList
      | some error => .error [error] := by
  have isAlone : ((operation.only definition).variableDefinitions.map
      VariableDefinition.name).Nodup := List.nodup_singleton _
  rw [coerceVariables_eq isAlone]
  simp only [only, List.filterMap_eq_flatMap_toList, List.flatMap_singleton]
  cases definition.error? registry provided <;> rfl

/-- The definitions that fail alone give their errors, in order. -/
private theorem forall₂_errors (registry : Registry) (provided : List (String × Json))
    (operation : Operation) (definitions : List VariableDefinition) :
    List.Forall₂ (fun definition error =>
        (operation.only definition).coerceVariables registry provided = .error [error])
      (definitions.filter fun definition =>
        !((operation.only definition).coerceVariables registry provided).isOk)
      (definitions.filterMap (VariableDefinition.error? registry provided)) := by
  induction definitions with
  | nil => exact .nil
  | cons head tail induction =>
      have alone : (operation.only head).coerceVariables registry provided = _ :=
        coerceVariables_only head
      cases failed : head.error? registry provided with
      | none =>
          rw [failed] at alone
          simpa [failed, alone, Except.isOk, Except.toBool] using induction
      | some error =>
          rw [failed] at alone
          simpa [failed, alone, Except.isOk, Except.toBool] using induction

private theorem isOk_only (definition : VariableDefinition) :
    ((operation.only definition).coerceVariables registry provided).isOk =
      (definition.error? registry provided).isNone := by
  rw [coerceVariables_only]
  cases definition.error? registry provided <;> rfl

private theorem isOk_coerceVariables
    (distinct : (operation.variableDefinitions.map VariableDefinition.name).Nodup) :
    (operation.coerceVariables registry provided).isOk = true ↔
      ∀ definition ∈ operation.variableDefinitions,
        ((operation.only definition).coerceVariables registry provided).isOk = true := by
  simp only [isOk_only, Option.isNone_iff_eq_none]
  rw [← List.filterMap_eq_nil_iff, coerceVariables_eq distinct]
  cases operation.variableDefinitions.filterMap (VariableDefinition.error? registry provided) <;>
    simp [Except.isOk, Except.toBool]

private theorem coerceVariables_congr {other : List (String × Json)}
    (same : ∀ definition ∈ operation.variableDefinitions,
      Named.value? other definition.name = Named.value? provided definition.name) :
    operation.coerceVariables registry other = operation.coerceVariables registry provided := by
  have sameStep : ∀ state, ∀ definition ∈ operation.variableDefinitions,
      Variables.addOutcome registry other state definition =
        Variables.addOutcome registry provided state definition := by
    intro state definition member
    rw [Variables.addOutcome, Variables.addOutcome, VariableDefinition.coerce,
      VariableDefinition.coerce, same definition member]
  rw [coerceVariables, coerceVariables, List.foldl_ext _ _ ([], []) sameStep]

private theorem names_sublist {values : Variables}
    (distinct : (operation.variableDefinitions.map VariableDefinition.name).Nodup)
    (coerced : operation.coerceVariables registry provided = .ok values) :
    (Named.names values).Sublist (operation.variableDefinitions.map VariableDefinition.name) := by
  rw [coerceVariables_eq distinct] at coerced
  split at coerced
  · rw [← Except.ok.inj coerced]
    exact Variables.names_bindings operation.variableDefinitions
  · cases coerced

end Operation

/-! ## The entry of a variable -/

namespace VariableDefinition

variable {definition : VariableDefinition} {outcome : Option VariableValue}

private theorem Source.present (source : definition.Source registry provided outcome) :
    outcome.isSome = true ↔ (Named.value? provided definition.name).isSome = true ∨
      definition.default.isSome = true := by
  cases source with
  | provided given => simp [given]
  | default _ isDefault => simp [isDefault]
  | leftOut _ leftOut => simp [leftOut.1, leftOut.2]

/-- A variable is null if null was given for it. -/
private theorem Source.null (solid : registry.SolidInputs)
    (constant : ∀ literal ∈ definition.default, literal.variableNames = [])
    (source : definition.Source registry provided outcome) :
    ∀ entry ∈ outcome, entry.value = .null →
      (TypeRef.ofExpr definition.type).isNonNull = false ∧ definition.GivenNull provided := by
  have ofRead : ∀ (input : RawInput), input.IsFree →
      input.read registry none (TypeRef.ofExpr definition.type) = .ok .null →
        input.isNull = true ∧ (TypeRef.ofExpr definition.type).isNonNull = false := by
    intro input free isRead
    have coerces := (RawInput.read_eq_ok free).mp isRead
    cases isNull : input.isNull with
    | true => exact ⟨rfl, (coerces.eq_null isNull).2⟩
    | false => cases coerces.notNull solid free isNull
  rintro entry isEntry isNull
  cases source with
  | @provided json value given coerced =>
      cases isEntry
      cases isNull
      have fromNull := ofRead (.json json) trivial coerced
      cases Json.eq_null fromNull.1
      exact ⟨fromNull.2, .inl given⟩
  | @default literal value notGiven isDefault coerced =>
      cases isEntry
      cases isNull
      have fromNull := ofRead (.literal literal) (constant literal isDefault) coerced
      cases Literal.eq_null fromNull.1
      exact ⟨fromNull.2, .inr ⟨notGiven, isDefault⟩⟩
  | leftOut => cases isEntry

/-- In a request that was accepted a variable gets what its definition makes of it. -/
private theorem gets_of_coerced {operation : Operation} {values : Variables}
    (distinct : (operation.variableDefinitions.map VariableDefinition.name).Nodup)
    (coerced : operation.coerceVariables registry provided = .ok values)
    (member : definition ∈ operation.variableDefinitions) :
    definition.Gets registry provided operation (values.get? definition.name) := by
  have own := Operation.coerced_variable distinct coerced member
  have source := (coerce_source own).2
  refine ⟨source, source.present, ?_, fun solid constant => ?_⟩
  · rw [Operation.coerceVariables_only, error?, binding?, own]
    cases values.get? definition.name <;> simp [failure?, Except.map,
      Variables.get?, Named.value?, Named.find?, nameOf]
  · exact source.null solid (constant definition member)

end VariableDefinition

/-- Variables of different names are coerced one by one. A request is refused just if one of them
fails alone, with the errors of all that do. Else each has the entry that it would have alone: of
what is provided for it, or else of its default. Other keys do not matter, nor the order of them. -/
theorem variables_coerced_one_by_one (registry : Registry) (operation : Operation)
    (distinct : (operation.variableDefinitions.map VariableDefinition.name).Nodup)
    (provided : List (String × Json)) :
    ((operation.coerceVariables registry provided).isOk = false ↔
      ∃ definition ∈ operation.variableDefinitions,
        ((operation.only definition).coerceVariables registry provided).isOk = false) ∧
    (∀ errors, operation.coerceVariables registry provided = .error errors →
      List.Forall₂ (fun definition error =>
          (operation.only definition).coerceVariables registry provided = .error [error])
        (operation.variableDefinitions.filter fun definition =>
          !((operation.only definition).coerceVariables registry provided).isOk) errors) ∧
    (∀ values, operation.coerceVariables registry provided = .ok values →
      (Named.names values).Sublist (operation.variableDefinitions.map VariableDefinition.name) ∧
      ∀ definition ∈ operation.variableDefinitions,
        definition.Gets registry provided operation (values.get? definition.name)) ∧
    (∀ other : List (String × Json), (∀ definition ∈ operation.variableDefinitions,
        Named.value? other definition.name = Named.value? provided definition.name) →
      operation.coerceVariables registry other = operation.coerceVariables registry provided) ∧
    (∀ other : List (String × Json), other.Perm provided → (Named.names provided).Nodup →
      operation.coerceVariables registry other = operation.coerceVariables registry provided) ∧
    ∀ text document, Document.ofText? text = some document → operation ∈ document.operations →
      operation.ConstantDefaults := by
  refine ⟨?_, ?_, ?_, ?_, ?_, ?_⟩
  · have allPass : (operation.coerceVariables registry provided).isOk = true ↔ _ :=
      Operation.isOk_coerceVariables distinct
    rw [← Bool.not_eq_true, allPass]
    simp
  · intro errors refused
    have inOrder := Operation.forall₂_errors registry provided operation
      operation.variableDefinitions
    rw [Operation.coerceVariables_eq distinct] at refused
    split at refused
    · cases refused
    · rename_i areErrors
      rwa [areErrors, Except.error.inj refused] at inOrder
  · intro values coerced
    exact ⟨Operation.names_sublist distinct coerced,
      fun definition member => VariableDefinition.gets_of_coerced distinct coerced member⟩
  · exact fun other same => Operation.coerceVariables_congr same
  · exact fun other permuted names => Operation.coerceVariables_congr fun definition _ =>
      Named.value?_of_perm names permuted definition.name
  · intro text document isRead listed
    exact Document.constantDefaults_of_text isRead operation listed

namespace Mailroom

/-! Sending takes a parcel, a number of copies, a note and a size. -/

def parcelVariable : VariableDefinition :=
  { position := ⟨1, 8⟩, name := "parcel", type := .nonNull (.named "Parcel"), default := none }

def copiesVariable : VariableDefinition :=
  { position := ⟨1, 26⟩, name := "copies", type := .named "Int", default := some (.int 2) }

def noteVariable : VariableDefinition :=
  { position := ⟨1, 45⟩, name := "note", type := .named "String", default := none }

def sizeVariable : VariableDefinition :=
  { position := ⟨1, 62⟩, name := "size", type := .named "Size", default := none }

def sending : Operation where
  position := ⟨1, 1⟩
  kind := .query
  name := none
  variableDefinitions := [parcelVariable, copiesVariable, noteVariable, sizeVariable]
  directives := []
  selections := []

def sent : List (String × Json) := [("stray", .int 5), ("note", .null), ("parcel", given)]

private theorem sending_coerced : sending.coerceVariables Mailroom.registry sent =
    .ok [("parcel",
        { value := .object [("weight", .int 1), ("labels", .array [.string "fragile"]),
            ("inside", .object [("weight", .int 3), ("size", .int 2)])],
          source := .explicit, type := .nonNull (.named "Parcel") }),
      ("copies", { value := .int 2, source := .variableDefault, type := .named "Int" }),
      ("note", { value := .null, source := .explicit, type := .named "String" })] := by
  rfl

private theorem sending_constant : sending.ConstantDefaults := by
  simp [Operation.ConstantDefaults, sending, parcelVariable, copiesVariable, noteVariable,
    sizeVariable, Literal.variableNames]

end Mailroom

theorem variables_coerced_one_by_one_of_mailroom :
    Mailroom.sending.coerceVariables Mailroom.registry Mailroom.sent.reverse =
        Mailroom.sending.coerceVariables Mailroom.registry Mailroom.sent ∧
      Mailroom.noteVariable.GivenNull Mailroom.sent ∧
      ((Mailroom.sending.only Mailroom.copiesVariable).coerceVariables Mailroom.registry
          Mailroom.sent).map (·.get? "copies") =
        .ok (some { value := .int 2, source := .variableDefault, type := .named "Int" }) ∧
      (Mailroom.sending.coerceVariables Mailroom.registry []).isOk = false := by
  have distinct : (Mailroom.sending.variableDefinitions.map VariableDefinition.name).Nodup := by
    decide
  have coerced := variables_coerced_one_by_one Mailroom.registry Mailroom.sending distinct
  rcases coerced Mailroom.sent with ⟨_, _, gets, _, anyOrder, _⟩
  have entries := (gets _ Mailroom.sending_coerced).2
  have ofNote := entries Mailroom.noteVariable (by simp [Mailroom.sending])
  have ofCopies := entries Mailroom.copiesVariable (by simp [Mailroom.sending])
  refine ⟨anyOrder _ (List.reverse_perm Mailroom.sent) (by decide), ?_, ofCopies.alone, ?_⟩
  · exact (ofNote.null Mailroom.soundInputs.solid Mailroom.sending_constant _ rfl rfl).2
  · exact (coerced []).1.mpr ⟨Mailroom.parcelVariable, by simp [Mailroom.sending], rfl⟩

end GraphQL
