import GraphQL.Proofs.Coercion.Checked
import GraphQL.Proofs.Coercion.Substitution

/-!
Arguments that are read as they are written: without type, default or check for null. Where an
argument was vetted, and its scalar takes nothing but literals of one form, such a reading gives
what coercion gives, or nothing where coercion fills in a default. They part where null is given to
a variable that may stand there only because of its default: this reads as null, and is refused.
-/

namespace GraphQL

/-- What is written for an argument, read without its type. -/
def ArgumentList.untyped? (written : ArgumentList) (values : Variables) (name : String) :
    Option Json :=
  (Named.value? written name).bind fun literal => (literal.valueWith (some values)).toOption

/-! ## Scalars -/

/-- A scalar that gives values of one form, those of literals just as they are written. -/
structure ScalarShape.ReadsAsWritten (scalar : ScalarShape) (form : Json → Prop) : Prop where
  notNull : ∀ value, form value → value.isNull = false
  ofValue : ∀ json value, scalar.parseValue json = .ok value → form value
  ofLiteral : ∀ literal value, scalar.parseLiteral literal = .ok value →
    form value ∧ ∀ valueOf, literal.toJson valueOf = .ok value

namespace Scalar

theorem boolean_readsAsWritten :
    boolean.ReadsAsWritten fun value => ∃ flag, value = .bool flag where
  notNull := by
    rintro _ ⟨flag, rfl⟩
    rfl
  ofValue json value parsed := by
    cases json with
    | bool flag =>
        cases parsed
        exact ⟨flag, rfl⟩
    | _ => cases parsed
  ofLiteral literal value parsed := by
    cases literal with
    | boolean flag =>
        cases parsed
        exact ⟨⟨flag, rfl⟩, fun _ => by rw [Literal.toJson]⟩
    | _ => cases parsed

theorem string_readsAsWritten :
    string.ReadsAsWritten fun value => ∃ text, value = .string text where
  notNull := by
    rintro _ ⟨text, rfl⟩
    rfl
  ofValue json value parsed := by
    cases json with
    | string text =>
        cases parsed
        exact ⟨text, rfl⟩
    | _ => cases parsed
  ofLiteral literal value parsed := by
    cases literal with
    | string text =>
        cases parsed
        exact ⟨⟨text, rfl⟩, fun _ => by rw [Literal.toJson]⟩
    | _ => cases parsed

end Scalar

/-! ## Variables at types without lists -/

/-- Whether a type has no list around its name. -/
private def TypeRef.isListless : TypeRef → Bool
  | .list _ => false
  | .nonNull inner => inner.isListless
  | _ => true

theorem TypeRef.typeName_nullable (type : TypeRef) : type.nullable.typeName = type.typeName := by
  cases type <;> rfl

variable {registry : Registry} {operation : Operation} {provided : List (String × Json)}
  {values : Variables} {written : ArgumentList} {named : NamedType} {scalar : ScalarShape}
  {form : Json → Prop} {value : Json}

private theorem Registry.isListless_of_isSubType {sub bare : TypeRef} (isBare : bare.isBare = true)
    (isSub : registry.isSubType sub bare = true) : sub.isListless = true := by
  induction sub with
  | nonNull inner induction =>
      apply induction
      cases bare with
      | list | nonNull => cases isBare
      | named | direct | deferred => exact isSub
  | list item =>
      cases bare with
      | list | nonNull => cases isBare
      | named | direct | deferred => cases isSub
  | named | direct | deferred => rfl

private theorem Registry.Coerces.listless {type : TypeRef} {input : RawInput}
    (resolved : registry.resolve? type = some named) (isScalar : named.shape = .scalar scalar)
    (listless : type.isListless = true) (coerces : registry.Coerces type input value) :
    input.isNull = true ∨ input.parse scalar = .ok value := by
  cases isNull : input.isNull with
  | true => exact .inl rfl
  | false =>
      refine .inr ?_
      induction type with
      | nonNull inner induction =>
          exact induction resolved listless ((coerces_nonNull isNull).mp coerces)
      | list item => cases listless
      | named | direct | deferred =>
          cases coerces with
          | null isAlso =>
              rw [isNull] at isAlso
              cases isAlso
          | scalar _ _ resolvedHere isShape parsed =>
              cases resolved.symm.trans resolvedHere
              cases isScalar.symm.trans isShape
              exact parsed
          | enum _ resolvedHere isShape | object _ resolvedHere isShape =>
              cases resolved.symm.trans resolvedHere
              cases isScalar.symm.trans isShape

/-- A literal of a type without lists is null, or what its scalar makes of it, if it is not a
variable. Its parts may be variables. -/
private theorem Registry.coerceLiteral_listless {type : TypeRef} {values? : Option Variables}
    {literal : Literal} (notVariable : literal.isVariable = false)
    (resolved : registry.resolve? type = some named) (isScalar : named.shape = .scalar scalar)
    (listless : type.isListless = true)
    (coerced : registry.coerceLiteral values? literal type = .ok value) :
    (literal = .null ∧ value = .null) ∨ scalar.parseLiteral literal = .ok value := by
  have atBare {type : TypeRef} (resolved : registry.resolve? type = some named)
      (bare : type.nullable.isBare = true)
      (coerced : registry.coerceLiteral values? literal type = .ok value) :
      (literal = .null ∧ value = .null) ∨ scalar.parseLiteral literal = .ok value := by
    have parsed := (coerceLiteral_of_scalar resolved isScalar bare values? notVariable).mp coerced
    cases isNull : literal.isNull with
    | true =>
        rw [isNull, if_pos rfl] at parsed
        exact .inl ⟨Literal.eq_null isNull, parsed.2.symm⟩
    | false =>
        rw [isNull, if_neg Bool.false_ne_true] at parsed
        exact .inr parsed
  induction type with
  | nonNull inner induction =>
      refine induction resolved listless ?_
      cases literal with
      | «variable» name => cases notVariable
      | null => cases coerced
      | _ => exact coerced
  | list item => cases listless
  | named | direct | deferred => exact atBare resolved rfl coerced

namespace Rules

private theorem nullable_effectiveLocation {usage : VariableUsage}
    (bare : usage.locationType.nullable.isBare = true) (variableType : TypeRef)
    (hasDefault : Bool) :
    (effectiveLocation variableType hasDefault usage).nullable = usage.locationType.nullable := by
  rw [effectiveLocation]
  split
  · rename_i inner isLocation
    rw [isLocation] at bare ⊢
    split
    · cases inner with
      | list | nonNull => cases bare
      | named | direct | deferred => rfl
    · rfl
  · rfl

private theorem isSubType_of_isAllowed {variableType location : TypeRef}
    (bare : location.nullable.isBare = true)
    (allowed : isAllowed registry variableType location = true) :
    registry.isSubType variableType location.nullable = true := by
  cases location with
  | list item => cases bare
  | nonNull inner =>
      cases inner with
      | list | nonNull => cases bare
      | named | direct | deferred =>
          cases variableType with
          | nonNull variableInner => exact allowed
          | list | named | direct | deferred => cases allowed
  | named | direct | deferred => exact allowed

end Rules

namespace VariableDefinition

variable {definition : VariableDefinition}

/-- At a site without lists the position rule allows only types of that name without lists. -/
private theorem AllowedAt.listless {site : InputSite} (allowed : definition.AllowedAt registry site)
    (bare : site.type.nullable.isBare = true) (resolved : registry.resolve? site.type = some named)
    (concrete : named.isAbstract = false) :
    (TypeRef.ofExpr definition.type).isListless = true ∧
      registry.resolve? (TypeRef.ofExpr definition.type) = some named := by
  rcases allowed with ⟨usage, rfl, allowed⟩
  have bare : usage.locationType.nullable.isBare = true := bare
  have sameLocation := Rules.nullable_effectiveLocation bare (TypeRef.ofExpr definition.type)
    (Rules.hasNonNullDefault definition)
  have isSub := Rules.isSubType_of_isAllowed (sameLocation.symm ▸ bare) allowed
  rw [sameLocation] at isSub
  have resolvedHere : registry.resolve? usage.locationType.nullable = some named := by
    rw [Registry.resolve?, TypeRef.typeName_nullable]
    exact resolved
  refine ⟨Registry.isListless_of_isSubType bare isSub, ?_⟩
  rcases Registry.isNamedSubType_of_isSubType isSub with
    sameName | ⟨superType, _, isSuper, _, isAbstract, _⟩
  · rw [Registry.resolve?, sameName, ← Registry.resolve?, resolvedHere]
  · cases resolvedHere.symm.trans isSuper
    rw [concrete] at isAbstract
    cases isAbstract

/-- Nothing is given for a variable whose default is a variable, and so reads as null. -/
def Defers (definition : VariableDefinition) (provided : List (String × Json)) : Prop :=
  Named.value? provided definition.name = none ∧ ∃ name, definition.default = some (.variable name)

/-- The value of a variable of a type without lists has the form of its scalar, or is null because
null was given, or another variable in its place. -/
private theorem Source.at_scalar {outcome : Option VariableValue} {entry : VariableValue}
    (source : definition.Source registry provided outcome) (isEntry : outcome = some entry)
    (listless : (TypeRef.ofExpr definition.type).isListless = true)
    (resolved : registry.resolve? (TypeRef.ofExpr definition.type) = some named)
    (isScalar : named.shape = .scalar scalar) (reads : scalar.ReadsAsWritten form) :
    form entry.value ∨ (entry.value = .null ∧
      (((TypeRef.ofExpr definition.type).isNonNull = false ∧ definition.GivenNull provided) ∨
        definition.Defers provided)) := by
  cases source with
  | @provided json value given coerced =>
      cases isEntry
      have coerces := (RawInput.reads_json none json _ _).mp coerced
      rcases coerces.listless resolved isScalar listless with isNull | parsed
      · have isGiven : json = .null := Json.eq_null isNull
        rw [isGiven] at given
        have readsNull := coerces.eq_null isNull
        exact .inr ⟨readsNull.1, .inl ⟨readsNull.2, .inl given⟩⟩
      · exact .inl (reads.ofValue json value parsed)
  | @default literal value notGiven isDefault coerced =>
      cases isEntry
      cases isVariable : literal.isVariable with
      | true =>
          cases literal with
          | «variable» name =>
              cases coerced
              exact .inr ⟨rfl, .inr ⟨notGiven, name, isDefault⟩⟩
          | _ => cases isVariable
      | false =>
          rcases Registry.coerceLiteral_listless isVariable resolved isScalar listless coerced with
            ⟨rfl, rfl⟩ | parsed
          · have nullable := throughWrappers_null _ _ _ ⟨_, coerced⟩
            exact .inr ⟨rfl, .inl ⟨nullable, .inr ⟨notGiven, isDefault⟩⟩⟩
          · exact .inl (reads.ofLiteral literal value parsed).1
  | leftOut => cases isEntry

private theorem Source.null_of_nulled {outcome : Option VariableValue}
    (source : definition.Source registry provided outcome)
    (nulled : Named.value? provided definition.name = some .null ∨ definition.Defers provided) :
    ∃ source, outcome = some ⟨.null, source, TypeRef.ofExpr definition.type⟩ := by
  rcases nulled with isNull | ⟨notGiven, name, isVariable⟩
  · cases source with
    | provided given coerced =>
        cases isNull.symm.trans given
        rw [Registry.coerceValue_null] at coerced
        split at coerced
        · cases coerced
        · cases coerced
          exact ⟨_, rfl⟩
    | default notGiven => cases isNull.symm.trans notGiven
    | leftOut _ leftOut => cases isNull.symm.trans leftOut.1
  · cases source with
    | provided given => cases notGiven.symm.trans given
    | default _ isDefault coerced =>
        cases isVariable.symm.trans isDefault
        cases coerced
        exact ⟨_, rfl⟩
    | leftOut _ leftOut => cases isVariable.symm.trans leftOut.2

/-- At a site without lists that requires a value, a nullable variable needs something in the place
of null. -/
private theorem Permitted.hasStandIn {site : InputSite} (permitted : definition.Permitted site)
    (bare : site.type.nullable.isBare = true) (required : site.type.isNonNull = true)
    (nullable : (TypeRef.ofExpr definition.type).isNonNull = false) :
    definition.HasStandIn site := by
  rcases permitted required with nonNull | standIn | isList
  · rw [nullable] at nonNull
    cases nonNull
  · exact standIn
  · rw [TypeRef.isList, TypeRef.listItem?] at isList
    cases isLocation : site.type.nullable <;> simp [isLocation, TypeRef.isBare] at isList bare

end VariableDefinition

/-! ## One argument -/

namespace InputValueDefinition

variable {definition : InputValueDefinition} {literal : Literal}

private theorem argumentEntry_of_absent
    (absent : ∀ literal, Named.value? written definition.name = some literal →
      literal.isAbsent (some values) = true) :
    definition.argumentEntry registry written values = definition.absentArgument := by
  rw [argumentEntry]
  cases isWritten : Named.value? written definition.name with
  | none => rfl
  | some literal => simp [Option.filter, absent literal isWritten]

private theorem argumentEntry_of_coerced
    (isWritten : Named.value? written definition.name = some literal)
    (present : literal.isAbsent (some values) = false)
    (coerced : registry.coerceLiteral (some values) literal definition.type = .ok value) :
    definition.argumentEntry registry written values =
      .ok [(definition.name, ⟨value, literal.source values⟩)] := by
  simp [argumentEntry, isWritten, Option.filter, present, coerced]

private theorem argumentEntry_of_refused
    (isWritten : Named.value? written definition.name = some literal)
    (present : literal.isAbsent (some values) = false)
    (refused : ∀ value, registry.coerceLiteral (some values) literal definition.type ≠ .ok value) :
    ∃ error, definition.argumentEntry registry written values = .error error := by
  cases coerced : registry.coerceLiteral (some values) literal definition.type with
  | ok value => exact absurd coerced (refused value)
  | error error =>
      rw [argumentEntry, isWritten]
      simp only [Option.filter, present, Bool.not_false, ↓reduceIte, coerced]
      exact ⟨_, rfl⟩

/-- A variable with a value is read as that value where no list is asked for. -/
private theorem argumentEntry_of_variable {name : String} {entry : VariableValue}
    (bare : definition.type.nullable.isBare = true)
    (isWritten : Named.value? written definition.name = some (.variable name))
    (isEntry : values.get? name = some entry)
    (suits : definition.type.isNonNull = true → entry.value.isNull = false) :
    definition.argumentEntry registry written values =
      .ok [(definition.name, ⟨entry.value, (Literal.variable name).source values⟩)] := by
  refine argumentEntry_of_coerced isWritten (by simp [Literal.isAbsent, isEntry]) ?_
  rw [Registry.coerceLiteral, Registry.variableAt_of_bare bare, Variables.value?, isEntry]
  exact ⟨rfl, suits⟩

/-- A variable that is null is refused where a value is required. -/
private theorem argumentEntry_of_null (registry : Registry) {name : String} {entry : VariableValue}
    (bare : definition.type.nullable.isBare = true) (isNonNull : definition.type.isNonNull = true)
    (isWritten : Named.value? written definition.name = some (.variable name))
    (isEntry : values.get? name = some entry) (isNull : entry.value = .null) :
    ∃ error, definition.argumentEntry registry written values = .error error := by
  refine argumentEntry_of_refused isWritten (by simp [Literal.isAbsent, isEntry]) fun value => ?_
  rw [Registry.coerceLiteral, Ne, Registry.variableAt_of_bare bare, Variables.value?, isEntry,
    Option.map_some, Option.getD_some, isNull]
  rintro ⟨rfl, notNull⟩
  cases notNull isNonNull

/-- The untyped reading of an argument agrees with its entry: it gives the value of the entry, or
nothing but null where the entry is a default. Only where null is given to a variable that may stand
there because of a default, or that default is a variable, there is no entry. -/
inductive Agrees (operation : Operation) (provided : List (String × Json)) (written : ArgumentList)
    (definition : InputValueDefinition) (form : Json → Prop) (untyped : Option Json) :
    Except CoercionError Arguments → Prop
  | given {value : Json} {source : ArgumentSource} (hasForm : form value)
      (same : untyped = some value) :
      Agrees operation provided written definition form untyped
        (.ok [(definition.name, ⟨value, source⟩)])
  | null {source : ArgumentSource} (nullable : definition.type.isNonNull = false)
      (same : untyped = some .null) :
      Agrees operation provided written definition form untyped
        (.ok [(definition.name, ⟨.null, source⟩)])
  | absent {arguments : Arguments} (isDefault : definition.absentArgument = .ok arguments)
      (nothing : untyped.getD .null = .null) :
      Agrees operation provided written definition form untyped (.ok arguments)
  | refused {error : CoercionError} {used : VariableDefinition}
      (isUsed : used ∈ operation.variableDefinitions)
      (required : definition.type.isNonNull = true)
      (isWritten : Named.value? written definition.name = some (.variable used.name))
      (nulled : (used.HasStandIn definition.site ∧ used.GivenNull provided) ∨ used.Defers provided)
      (same : untyped = some .null) :
      Agrees operation provided written definition form untyped (.error error)

private theorem untyped?_variable {name : String}
    (isWritten : Named.value? written definition.name = some (.variable name)) :
    written.untyped? values definition.name = some ((values.value? name).getD .null) := by
  rw [ArgumentList.untyped?, isWritten, Option.bind_some, Literal.valueWith, Literal.toJson]
  rfl

/-- Nothing is required of an argument in whose place a variable without value or default may
stand. -/
private theorem isRequired_of_leftOut {used : VariableDefinition}
    (bare : definition.type.nullable.isBare = true)
    (allowed : used.AllowedAt registry definition.site)
    (nullable : (TypeRef.ofExpr used.type).isNonNull = false) (leftOut : used.LeftOut provided) :
    definition.isRequired = false := by
  cases isRequired : definition.isRequired with
  | false => rfl
  | true =>
      rw [InputValueDefinition.isRequired, Bool.and_eq_true] at isRequired
      rcases allowed.permitted.hasStandIn bare isRequired.1 nullable with ofVariable | ofSite
      · rw [Rules.hasNonNullDefault, leftOut.2] at ofVariable
        cases ofVariable
      · have isSome : definition.default.isSome = true := ofSite
        rw [Option.isNone_iff_eq_none] at isRequired
        rw [isRequired.2] at isSome
        cases isSome

variable {used : VariableDefinition}

private theorem agrees_of_variable (bare : definition.type.nullable.isBare = true)
    (resolved : registry.resolve? definition.type = some named)
    (isScalar : named.shape = .scalar scalar) (reads : scalar.ReadsAsWritten form)
    (isWritten : Named.value? written definition.name = some (.variable used.name))
    (isUsed : used ∈ operation.variableDefinitions)
    (allowed : used.AllowedAt registry definition.site)
    (source : used.Source registry provided (values.get? used.name)) :
    definition.Agrees operation provided written form (written.untyped? values definition.name)
      (definition.argumentEntry registry written values) := by
  rw [untyped?_variable isWritten, Variables.value?]
  cases isEntry : values.get? used.name with
  | none =>
      rw [isEntry] at source
      have absent (literal : Literal)
          (isLiteral : Named.value? written definition.name = some literal) :
          literal.isAbsent (some values) = true := by
        cases isWritten.symm.trans isLiteral
        simp [Literal.isAbsent, isEntry]
      rw [argumentEntry_of_absent absent]
      cases source with
      | leftOut nullable leftOut =>
          rcases absentArgument_reads.mpr (isRequired_of_leftOut bare allowed nullable leftOut) with
            ⟨arguments, isDefault⟩
          rw [isDefault]
          exact .absent isDefault rfl
  | some entry =>
      have concrete : named.isAbstract = false := by rw [NamedType.isAbstract, isScalar]
      have suits := allowed.listless bare resolved concrete
      rcases source.at_scalar isEntry suits.1 suits.2 isScalar reads with
        hasForm | ⟨isNull, given⟩
      · rw [argumentEntry_of_variable bare isWritten isEntry fun _ => reads.notNull _ hasForm]
        exact .given hasForm rfl
      · cases required : definition.type.isNonNull with
        | false =>
            rw [argumentEntry_of_variable bare isWritten isEntry (by simp [required]),
              Option.map_some, isNull]
            exact .null required rfl
        | true =>
            rcases argumentEntry_of_null registry bare required isWritten isEntry isNull with
              ⟨error, isError⟩
            rw [isError, Option.map_some, isNull]
            exact .refused isUsed required isWritten (given.imp_left fun nullGiven =>
              ⟨allowed.permitted.hasStandIn bare required nullGiven.1, nullGiven.2⟩) rfl

private theorem agrees_of_literal (bare : definition.type.nullable.isBare = true)
    (resolved : registry.resolve? definition.type = some named)
    (isScalar : named.shape = .scalar scalar) (reads : scalar.ReadsAsWritten form)
    (isWritten : Named.value? written definition.name = some literal)
    (notVariable : literal.isVariable = false)
    (isRead : registry.coerceLiteral none literal definition.type = .ok value) :
    definition.Agrees operation provided written form (written.untyped? values definition.name)
      (definition.argumentEntry registry written values) := by
  have atScalar (values? : Option Variables) :
      registry.coerceLiteral values? literal definition.type = .ok value ↔
        if literal.isNull then definition.type.isNonNull = false ∧ .null = value
        else scalar.parseLiteral literal = .ok value :=
    Registry.coerceLiteral_of_scalar resolved isScalar bare values? notVariable
  have parsed := (atScalar none).mp isRead
  have present : literal.isAbsent (some values) = false := by
    cases literal with
    | «variable» name => cases notVariable
    | _ => rfl
  rw [argumentEntry_of_coerced isWritten present ((atScalar _).mpr parsed),
    ArgumentList.untyped?, isWritten, Option.bind_some, Literal.valueWith]
  cases isNull : literal.isNull with
  | true =>
      rw [isNull, if_pos rfl] at parsed
      rw [← parsed.2, Literal.eq_null isNull, Literal.toJson]
      exact .null parsed.1 rfl
  | false =>
      rw [isNull, if_neg Bool.false_ne_true] at parsed
      have asWritten := reads.ofLiteral literal value parsed
      rw [asWritten.2]
      exact .given asWritten.1 rfl

/-- The arguments of an accepted request, at scalars that read literals as they are written, are
read without their types as they are coerced. -/
theorem agrees_of_vetted (vetted : definition.Vetted registry operation written)
    (sources : ∀ used ∈ operation.variableDefinitions,
      used.Source registry provided (values.get? used.name))
    (bare : definition.type.nullable.isBare = true)
    (resolved : registry.resolve? definition.type = some named)
    (isScalar : named.shape = .scalar scalar) (reads : scalar.ReadsAsWritten form) :
    definition.Agrees operation provided written form (written.untyped? values definition.name)
      (definition.argumentEntry registry written values) := by
  have passes := vetted.passes
  rw [Passes] at passes
  cases isWritten : Named.value? written definition.name with
  | none =>
      rw [isWritten] at passes
      rcases absentArgument_reads.mpr passes with ⟨arguments, isDefault⟩
      rw [argumentEntry_of_absent (by simp [isWritten]), isDefault]
      exact .absent isDefault (by simp [ArgumentList.untyped?, isWritten])
  | some literal =>
      rw [isWritten] at passes
      rcases passes with ⟨value, isRead⟩
      cases isVariable : literal.isVariable with
      | true =>
          cases literal with
          | «variable» name =>
              rcases vetted.allowed _ isWritten name _ .here with ⟨used, isUsed, rfl, allowed⟩
              exact agrees_of_variable bare resolved isScalar reads isWritten isUsed allowed
                (sources used isUsed)
          | _ => cases isVariable
      | false => exact agrees_of_literal bare resolved isScalar reads isWritten isVariable isRead

end InputValueDefinition

/-! ## Required arguments -/

/-- What is written for an argument is a variable with a default other than null that is null all
the same: null is given for it, or its default is a variable. -/
def Operation.NullsArgument (operation : Operation) (provided : List (String × Json))
    (written : ArgumentList) (name : String) : Prop :=
  ∃ used ∈ operation.variableDefinitions,
    Named.value? written name = some (.variable used.name) ∧ Rules.hasNonNullDefault used = true ∧
      (Named.value? provided used.name = some .null ∨ used.Defers provided)

namespace InputValueDefinition

variable {definition : InputValueDefinition} {untyped : Option Json}
  {result : Except CoercionError Arguments}

/-- A required argument is coerced to what it reads as, or a default of its variable is overridden
with null. -/
theorem Agrees.required
    (agrees : definition.Agrees operation provided written form untyped result)
    (isNonNull : definition.type.isNonNull = true) (noDefault : definition.default = none) :
    (∃ value source, form value ∧ untyped = some value ∧
      result = .ok [(definition.name, ⟨value, source⟩)]) ∨
    (operation.NullsArgument provided written definition.name ∧ untyped = some .null ∧
      ∃ error, result = .error error) := by
  cases agrees with
  | given hasForm same => exact .inl ⟨_, _, hasForm, same, rfl⟩
  | null nullable =>
      rw [isNonNull] at nullable
      cases nullable
  | absent isDefault =>
      rw [absentArgument, noDefault, isNonNull] at isDefault
      cases isDefault
  | @refused _ used isUsed _ isWritten nulled same =>
      have ofVariable (standIn : used.HasStandIn definition.site) :
          Rules.hasNonNullDefault used = true := by
        refine standIn.resolve_right ?_
        simp [InputValueDefinition.site, noDefault]
      refine .inr ⟨⟨used, isUsed, isWritten, ?_⟩, same, _, rfl⟩
      rcases nulled with ⟨standIn, given | ⟨_, isNull⟩⟩ | ⟨notGiven, name, isDefault⟩
      · exact ⟨ofVariable standIn, .inl given⟩
      · have hasDefault := ofVariable standIn
        rw [Rules.hasNonNullDefault, isNull] at hasDefault
        cases hasDefault
      · exact ⟨by rw [Rules.hasNonNullDefault, isDefault]; rfl, .inr ⟨notGiven, name, isDefault⟩⟩

/-- An argument that may be null is coerced, and it has a value other than its default if it reads
as that value. -/
theorem Agrees.optional
    (agrees : definition.Agrees operation provided written form untyped result)
    (nullable : definition.type.isNonNull = false) (notNull : value.isNull = false)
    (notDefault : definition.default ≠ some value) :
    ∃ arguments, result = .ok arguments ∧
      (untyped = some value ↔ Arguments.get? arguments definition.name = some value) := by
  have entryValue (value : Json) (source : ArgumentSource) :
      Arguments.get? [(definition.name, ⟨value, source⟩)] definition.name = some value := by
    simp [Arguments.get?, Named.value?, Named.find?, nameOf]
  cases agrees with
  | given hasForm same => exact ⟨_, rfl, by rw [entryValue, same]⟩
  | null _ same => exact ⟨_, rfl, by rw [entryValue, same]⟩
  | @absent arguments isDefault nothing =>
      refine ⟨arguments, rfl, ?_, ?_⟩
      · rintro rfl
        cases nothing
        cases notNull
      · intro isValue
        rw [absentArgument] at isDefault
        cases given : definition.default with
        | some other =>
            rw [given] at isDefault notDefault
            cases isDefault
            rw [entryValue] at isValue
            exact absurd isValue notDefault
        | none =>
            simp only [given, nullable, Bool.false_eq_true, if_false, Except.ok.injEq] at isDefault
            subst isDefault
            cases isValue
  | refused _ required =>
      rw [nullable] at required
      cases required

/-- An argument that refuses null is not coerced if a default of its variable is overridden with
null. -/
theorem argumentEntry_of_nulls
    (sources : ∀ used ∈ operation.variableDefinitions,
      used.Source registry provided (values.get? used.name))
    (bare : definition.type.nullable.isBare = true) (isNonNull : definition.type.isNonNull = true)
    (nulls : operation.NullsArgument provided written definition.name) :
    ∃ error, definition.argumentEntry registry written values = .error error := by
  rcases nulls with ⟨used, isUsed, isWritten, _, nulled⟩
  rcases (sources used isUsed).null_of_nulled nulled with ⟨source, isEntry⟩
  exact argumentEntry_of_null registry bare isNonNull isWritten isEntry rfl

end InputValueDefinition

end GraphQL
