import GraphQL.Proofs.Coercion.Variables
import GraphQL.Proofs.Schema.Possible

/-!
Arguments that were checked before a request runs. The checks carry over to definitions that take
the same arguments, and they leave one reason why the arguments may not be coerced in the end: a
variable that lacks a value where one is required.
-/

namespace GraphQL

namespace InputValueDefinition

variable {registry : Registry} {operation : Operation} {written : ArgumentList}
  {declared : List InputValueDefinition} {own : InputValueDefinition}

/-- The dry run of an argument passes, and variables stand where they may in what is written. -/
structure Checked (registry : Registry) (operation : Operation) (written : ArgumentList)
    (definition : InputValueDefinition) : Prop where
  passes : definition.Passes registry written
  placed : ∀ literal, Named.value? written definition.name = some literal →
    ∀ name inner, registry.Mentions definition.site literal name inner →
      ∃ used ∈ operation.variableDefinitions, used.name = name ∧ used.Permitted inner

/-- The dry run of an argument passes, and the position rule lets variables stand where they do in
what is written. -/
structure Vetted (registry : Registry) (operation : Operation) (written : ArgumentList)
    (definition : InputValueDefinition) : Prop where
  passes : definition.Passes registry written
  allowed : ∀ literal, Named.value? written definition.name = some literal →
    ∀ name inner, registry.Mentions definition.site literal name inner →
      ∃ used ∈ operation.variableDefinitions, used.name = name ∧ used.AllowedAt registry inner

theorem Vetted.checked {definition : InputValueDefinition}
    (vetted : definition.Vetted registry operation written) :
    definition.Checked registry operation written := by
  refine ⟨vetted.passes, fun literal found name inner mentions => ?_⟩
  rcases vetted.allowed literal found name inner mentions with ⟨used, isUsed, isName, allowed⟩
  exact ⟨used, isUsed, isName, allowed.permitted⟩

private theorem takes_cases (takes : own.takes declared = true) :
    (Named.find? declared own.name = none ∧ own.isRequired = false) ∨
      ∃ other ∈ declared, other.name = own.name ∧ own.site.Covers other.site ∧
        (own.isRequired = true → other.isRequired = true) := by
  rw [InputValueDefinition.takes] at takes
  split at takes
  · rename_i other found
    have parts := (Bool.and_eq_true _ _).mp takes
    have isMember := Named.find?_mem found
    have sameType : own.type.byName = other.type.byName := TypeRef.byName_of_same parts.1
    have required : own.isRequired = true → other.isRequired = true := by
      intro isRequired
      simpa [isRequired] using parts.2
    refine .inr ⟨other, isMember.1, isMember.2, ⟨sameType, fun nonNull hasDefault => ?_⟩, required⟩
    -- a default that only the other one had would make this one required and not that one
    cases isDefault : own.default with
    | some value => simp [InputValueDefinition.site, isDefault]
    | none =>
        have nonNull : other.type.isNonNull = true := nonNull
        have hasDefault : other.default.isSome = true := hasDefault
        have isRequired : own.isRequired = true := by
          rw [isRequired, ← TypeRef.isNonNull_byName, sameType, TypeRef.isNonNull_byName, nonNull,
            isDefault]
          rfl
        have otherRequired := required isRequired
        rw [InputValueDefinition.isRequired] at otherRequired
        simp_all
  · rename_i unknown
    exact .inl ⟨unknown, by simpa using takes⟩

private theorem Passes.of_covers {other : InputValueDefinition} (sameName : other.name = own.name)
    (covers : own.site.Covers other.site)
    (required : own.isRequired = true → other.isRequired = true)
    (passes : other.Passes registry written) : own.Passes registry written := by
  rw [Passes, sameName] at passes
  rw [Passes]
  cases found : Named.value? written own.name with
  | some literal =>
      rw [found] at passes
      have sameReading : registry.coerceLiteral none literal own.type =
          registry.coerceLiteral none literal other.type := by
        have sameType : own.type.byName = other.type.byName := covers.sameType
        rw [← registry.coerceLiteral_byName, sameType, registry.coerceLiteral_byName]
      rcases passes with ⟨value, isRead⟩
      exact ⟨value, sameReading.trans isRead⟩
  | none =>
      rw [found] at passes
      have notRequired : other.isRequired = false := passes
      cases isRequired : own.isRequired with
      | false => rfl
      | true => exact (required isRequired).symm.trans notRequired

/-- What is checked for the definitions that a document is written for, is checked for definitions
that take the same arguments. -/
theorem Checked.of_takes (takes : own.takes declared = true)
    (known : ∀ name ∈ Named.names written, Named.find? declared name ≠ none)
    (checked : ∀ definition ∈ declared, definition.Checked registry operation written) :
    own.Checked registry operation written := by
  rcases takes_cases takes with ⟨unknown, notRequired⟩ | ⟨other, member, sameName, covers, required⟩
  · have notWritten : Named.value? written own.name = none :=
      Named.value?_eq_none.mpr fun isWritten => known _ isWritten unknown
    refine ⟨?_, fun literal found => ?_⟩
    · rw [Passes, notWritten]
      exact notRequired
    · rw [notWritten] at found
      cases found
  · refine ⟨.of_covers sameName covers required (checked other member).passes, ?_⟩
    intro literal found name inner mentions
    rcases mentions.covered covers with ⟨otherInner, otherMentions, coversInner⟩
    rcases (checked other member).placed literal (sameName ▸ found) name otherInner otherMentions
      with ⟨used, isUsed, isName, permitted⟩
    exact ⟨used, isUsed, isName, permitted.of_covers coversInner⟩

end InputValueDefinition

variable {registry : Registry} {operation : Operation} {written : ArgumentList}
  {provided : List (String × Json)} {values : Variables}

/-- A variable that an argument mentions where a value is required, and that lacks one. -/
def Operation.LacksAt (operation : Operation) (registry : Registry)
    (provided : List (String × Json)) (definition : InputValueDefinition) (literal : Literal) :
    Prop :=
  ∃ name site, registry.Mentions definition.site literal name site ∧
    site.type.isNonNull = true ∧
    ∃ used ∈ operation.variableDefinitions, used.name = name ∧ used.Lacks registry provided site

/-- Checked arguments are coerced, or a variable in one of them lacks a value. -/
theorem coerceArguments_or_lacks (proper : registry.ProperInputs)
    {definitions : List InputValueDefinition}
    (regular : ∀ definition ∈ definitions, definition.type.IsRegular)
    (checked : ∀ definition ∈ definitions, definition.Checked registry operation written)
    (distinct : ∀ argument ∈ written, ∃ scope,
      ∀ visit ∈ Walk.value registry scope argument.2, visit.visit.namesDistinct = true)
    (outcomes : ∀ used ∈ operation.variableDefinitions,
      used.Outcome registry provided (values.get? used.name)) :
    (∃ arguments, registry.coerceArguments written values definitions = .ok arguments) ∨
      ∃ argument ∈ written, ∃ definition ∈ definitions, definition.name = argument.1 ∧
        operation.LacksAt registry provided definition argument.2 := by
  by_cases lacks : ∃ argument ∈ written, ∃ definition ∈ definitions,
      definition.name = argument.1 ∧ operation.LacksAt registry provided definition argument.2
  · exact .inr lacks
  · refine .inl (coerceArguments_of_dryRun proper
      (fun definition member => (checked definition member).passes) ?_)
    intro definition member literal found
    have isWritten := Named.value?_mem found
    refine ⟨regular definition member, distinct _ isWritten, fun name inner mentions => ?_⟩
    rcases (checked definition member).placed literal found name inner mentions with
      ⟨used, isUsed, isName, permitted⟩
    subst isName
    rcases (outcomes used isUsed).serves_or_lacks permitted with serves | ⟨required, lacking⟩
    · exact serves
    · exact absurd ⟨_, isWritten, definition, member, rfl,
        used.name, inner, mentions, required, used, isUsed, rfl, lacking⟩ lacks

end GraphQL
