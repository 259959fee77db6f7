import GraphQL.Proofs.Coercion.Untyped
import GraphQL.Proofs.Execution.Arguments
import GraphQL.Proofs.Execution.Conformance
import GraphQL.Proofs.Execution.Meeting
import GraphQL.Proofs.Schema.Coherence
import GraphQL.Proofs.Validation.Directives

/-!
What an execution reads without types: the conditions of `@skip` and `@include`, and the arguments
of introspection. In an accepted request they are read as they are coerced, but where null overrides
the default of a variable: coercion refuses it, and the reading takes it for nothing.
-/

namespace GraphQL

private theorem Scalar.exists_boolean :
    ∃ named ∈ all, named.name = "Boolean" ∧ named.shape = .scalar boolean :=
  ⟨all[3], List.getElem_mem _, rfl, rfl⟩

private theorem Scalar.exists_string :
    ∃ named ∈ all, named.name = "String" ∧ named.shape = .scalar string :=
  ⟨all[0], List.getElem_mem _, rfl, rfl⟩

namespace Request

variable {request : Request} {schema : Schema} {provided : List (String × Json)}

/-! ## Arguments of accepted requests -/

/-- A request for a registry that was built, with a document that the default plan accepts and with
values for the variables of its operation. -/
structure Cleared (request : Request) (schema : Schema) (provided : List (String × Json)) :
    Prop where
  built : schema.build = .ok request.registry
  silent : request.document.validate request.registry defaultPlan = []
  operation : request.operation ∈ request.document.operations
  provides : request.Provides provided

private theorem cleared_of_accepted (built : schema.build = .ok request.registry)
    (operation : request.operation ∈ request.document.operations)
    (accepted : request.document.checkRequest request.registry defaultPlan request.operation
      provided = { variableValues := request.variableValues }) :
    request.Cleared schema provided where
  built := built
  silent := (Document.checkRequest_accepted accepted).1
  operation := operation
  provides := provides_of_accepted operation accepted

/-- The arguments that coercion makes of what is written. -/
def coerced (request : Request) (written : ArgumentList) (definitions : List InputValueDefinition) :
    Except CoercionError Arguments :=
  request.registry.coerceArguments written request.variableValues definitions

private theorem coerced_single (request : Request) (written : ArgumentList)
    (definition : InputValueDefinition) :
    request.coerced written [definition] =
      definition.argumentEntry request.registry written request.variableValues := by
  simp only [coerced, Registry.coerceArguments]
  cases definition.argumentEntry request.registry written request.variableValues with
  | error error => rfl
  | ok entry => exact congrArg Except.ok (List.append_nil entry)

namespace Cleared

variable {written : ArgumentList} {definition : InputValueDefinition} {named : NamedType}
  {scalar : ScalarShape} {form : Json → Prop}

private theorem yields (cleared : request.Cleared schema provided) :
    schema.Yields request.registry :=
  Schema.build_yields cleared.built

private theorem passed (cleared : request.Cleared schema provided) : request.subject.Passed :=
  passed_of_otherRules (validate_eq_nil.mpr fun _ isOther =>
    silent_of_defaultPlan cleared.silent (mem_defaultPlan.mpr (.inl isOther)))

/-- An argument of a built-in scalar is read as it is coerced. -/
private theorem agrees (cleared : request.Cleared schema provided)
    (vetted : definition.Vetted request.registry request.operation written)
    (isBuiltIn : named ∈ Scalar.all) (isScalar : named.shape = .scalar scalar)
    (reads : scalar.ReadsAsWritten form) (isType : definition.type.nullable = .named named.name) :
    definition.Agrees request.operation provided written form
      (written.untyped? request.variableValues definition.name)
      (request.coerced written [definition]) := by
  have resolved : request.registry.resolve? definition.type = some named := by
    rw [Registry.resolve?, ← TypeRef.typeName_nullable, isType]
    exact cleared.yields.lookup_builtIn (List.mem_append_left _ isBuiltIn)
  rw [coerced_single]
  exact InputValueDefinition.agrees_of_vetted vetted cleared.provides.sources (by rw [isType]; rfl)
    resolved isScalar reads

/-- A required argument is coerced to what it is read as, unless a default of its variable is
overridden with null. -/
private theorem required (cleared : request.Cleared schema provided)
    (vetted : definition.Vetted request.registry request.operation written)
    (isBuiltIn : named ∈ Scalar.all) (isScalar : named.shape = .scalar scalar)
    (reads : scalar.ReadsAsWritten form) (isType : definition.type = .nonNull (.named named.name))
    (noDefault : definition.default = none) :
    (¬request.operation.NullsArgument provided written definition.name ∧
      ∃ value source, form value ∧
        written.untyped? request.variableValues definition.name = some value ∧
        request.coerced written [definition] = .ok [(definition.name, ⟨value, source⟩)]) ∨
    (request.operation.NullsArgument provided written definition.name ∧
      written.untyped? request.variableValues definition.name = some .null ∧
      ∃ error, request.coerced written [definition] = .error error) := by
  have agrees := cleared.agrees vetted isBuiltIn isScalar reads (by rw [isType]; rfl)
  have isNonNull : definition.type.isNonNull = true := by rw [isType]; rfl
  refine (agrees.required isNonNull noDefault).imp_left fun isRead => ⟨fun nulls => ?_, isRead⟩
  have refused := InputValueDefinition.argumentEntry_of_nulls cleared.provides.sources
    (by rw [isType]; rfl) isNonNull nulls
  rcases isRead with ⟨value, source, _, _, isOk⟩
  rw [coerced_single] at isOk
  rw [isOk] at refused
  rcases refused with ⟨error, isError⟩
  cases isError

end Cleared

/-! ## Conditions -/

/-- The coerced condition of a directive, if its arguments are coerced. -/
def coercedCondition? (request : Request) (definition : DirectiveDefinition)
    (directive : Directive) : Option Json :=
  (request.coerced directive.arguments definition.arguments).toOption.bind fun arguments =>
    Arguments.get? arguments "if"

/-- The directives of a selection decide by their coerced conditions whether it is left in. These
are Booleans, unless null overrides the default of a variable: then the arguments are refused, and
the directive has no say. -/
structure Conditional (request : Request) (provided : List (String × Json))
    (directives : List Directive) : Prop where
  coerced : ∀ definition ∈
      [DirectiveDefinition.skipDirective, DirectiveDefinition.includeDirective],
    request.registry.directive? definition.name = some definition ∧
    ∀ directive ∈ directives, directive.name = definition.name →
      (¬request.operation.NullsArgument provided directive.arguments "if" ∧
        ∃ flag source, request.coerced directive.arguments definition.arguments =
          .ok [("if", ⟨.bool flag, source⟩)]) ∨
      (request.operation.NullsArgument provided directive.arguments "if" ∧
        ∃ error, request.coerced directive.arguments definition.arguments = .error error)
  included : request.includes directives = true ↔ ∀ directive ∈ directives,
    (directive.name = "skip" →
      request.coercedCondition? DirectiveDefinition.skipDirective directive ≠ some (.bool true)) ∧
    (directive.name = "include" →
      request.coercedCondition? DirectiveDefinition.includeDirective directive ≠
        some (.bool false))

/-- A built-in directive with nothing but a condition. -/
structure IsCondition (definition : DirectiveDefinition) : Prop where
  builtIn : definition ∈ DirectiveDefinition.builtIn
  once : definition.repeatable = false
  condition : ∃ input, definition.arguments = [input] ∧ input.name = "if" ∧
    input.type = .nonNull (.named "Boolean") ∧ input.default = none

private theorem isCondition_skip : IsCondition DirectiveDefinition.skipDirective :=
  ⟨by simp [DirectiveDefinition.builtIn], rfl, _, rfl, rfl, rfl, rfl⟩

private theorem isCondition_include : IsCondition DirectiveDefinition.includeDirective :=
  ⟨by simp [DirectiveDefinition.builtIn], rfl, _, rfl, rfl, rfl, rfl⟩

private theorem condition?_eq (request : Request) (directives : List Directive) (name : String) :
    request.condition? directives name =
      (directives.find? fun directive => directive.name == name).bind fun directive =>
        directive.arguments.untyped? request.variableValues "if" :=
  rfl

private theorem includes_iff (request : Request) (directives : List Directive) :
    request.includes directives = true ↔
      request.condition? directives "skip" ≠ some (.bool true) ∧
        request.condition? directives "include" ≠ some (.bool false) := by
  rw [includes]
  split
  · rename_i isSkipped
    simp [isSkipped]
  · rename_i notSkipped
    split
    · rename_i notIncluded
      simp [notIncluded]
    · rename_i isIncluded
      simpa using ⟨notSkipped, isIncluded⟩

namespace Cleared

variable {parent : Option NamedType} {selection : Selection} {directive : Directive}
  {definition : DirectiveDefinition}

/-- The condition of a directive is coerced to what it is read as, or it is null where that is
refused. -/
private theorem condition (cleared : request.Cleared schema provided)
    (meets : request.Meets parent selection) (isCondition : IsCondition definition)
    (member : directive ∈ selection.directives) (isName : directive.name = definition.name) :
    (¬request.operation.NullsArgument provided directive.arguments "if" ∧
      ∃ flag source, directive.arguments.untyped? request.variableValues "if" =
          some (.bool flag) ∧
        request.coerced directive.arguments definition.arguments =
          .ok [("if", ⟨.bool flag, source⟩)]) ∨
    (request.operation.NullsArgument provided directive.arguments "if" ∧
      directive.arguments.untyped? request.variableValues "if" = some .null ∧
      ∃ error, request.coerced directive.arguments definition.arguments = .error error) := by
  have known : request.registry.directive? directive.name = some definition :=
    isName ▸ Schema.build_builtIn cleared.built isCondition.builtIn
  rcases meets.stands with ⟨around, owner, selections, reaches, has, isSelection⟩
  rcases isCondition.condition with ⟨input, isSingle, isIf, isType, noDefault⟩
  have vetted := has.vetted cleared.yields cleared.passed cleared.silent cleared.operation
    cleared.provides.isInput reaches isSelection member known (by rw [isSingle]; simp [Named.names])
  rcases Scalar.exists_boolean with ⟨named, isBuiltIn, isBoolean, isScalar⟩
  rcases cleared.required (vetted input (by simp [isSingle])) isBuiltIn isScalar
    Scalar.boolean_readsAsWritten (isBoolean ▸ isType) noDefault with
    ⟨notNulled, value, source, ⟨flag, rfl⟩, isRead, isCoerced⟩ | nulled
  · rw [isSingle, ← isIf]
    exact .inl ⟨notNulled, flag, source, isRead, isCoerced⟩
  · rw [isSingle, ← isIf]
    exact .inr nulled

/-- A condition is read as the coerced one of the directive of its name. -/
private theorem condition?_iff (cleared : request.Cleared schema provided)
    (meets : request.Meets parent selection) (isCondition : IsCondition definition) (flag : Bool) :
    request.condition? selection.directives definition.name = some (.bool flag) ↔
      ∃ directive ∈ selection.directives, directive.name = definition.name ∧
        request.coercedCondition? definition directive = some (.bool flag) := by
  have asCoerced {directive : Directive} (member : directive ∈ selection.directives)
      (isName : directive.name = definition.name) :
      directive.arguments.untyped? request.variableValues "if" = some (.bool flag) ↔
        request.coercedCondition? definition directive = some (.bool flag) := by
    rw [coercedCondition?]
    rcases cleared.condition meets isCondition member isName with
      ⟨_, isFlag, source, isRead, isCoerced⟩ | ⟨_, isRead, error, isError⟩
    · rw [isRead, isCoerced]
      rfl
    · rw [isRead, isError]
      simp [Except.toOption]
  rw [condition?_eq]
  constructor
  · intro isCondition
    rcases Option.bind_eq_some_iff.mp isCondition with ⟨directive, found, isRead⟩
    have member := List.mem_of_find?_eq_some found
    have isName : directive.name = definition.name := by simpa using List.find?_some found
    exact ⟨directive, member, isName, (asCoerced member isName).mp isRead⟩
  · rintro ⟨directive, member, isName, isCoerced⟩
    rcases meets.stands with ⟨around, owner, selections, reaches, has, isSelection⟩
    have unrepeated := has.unrepeated cleared.yields cleared.passed
      (silent_of_defaultPlan cleared.silent (by simp [defaultPlan]))
      (reaches.mem cleared.operation) isSelection
    have known : request.registry.directive? directive.name = some definition :=
      isName ▸ Schema.build_builtIn cleared.built isCondition.builtIn
    rw [← isName, Rules.find?_of_unrepeated unrepeated member known isCondition.once]
    exact (asCoerced member isName).mpr isCoerced

private theorem conditional (cleared : request.Cleared schema provided)
    (meets : request.Meets parent selection) :
    request.Conditional provided selection.directives where
  coerced definition isEither := by
    have isCondition : IsCondition definition := by
      rcases List.mem_pair.mp isEither with rfl | rfl
      · exact isCondition_skip
      · exact isCondition_include
    refine ⟨Schema.build_builtIn cleared.built isCondition.builtIn, ?_⟩
    intro directive member isName
    exact (cleared.condition meets isCondition member isName).imp
      (And.imp_right fun ⟨flag, source, _, isCoerced⟩ => ⟨flag, source, isCoerced⟩)
      (And.imp_right And.right)
  included := by
    have skips := cleared.condition?_iff meets isCondition_skip true
    have includes := cleared.condition?_iff meets isCondition_include false
    rw [includes_iff, Ne, Ne, show "skip" = DirectiveDefinition.skipDirective.name from rfl,
      show "include" = DirectiveDefinition.includeDirective.name from rfl, skips, includes]
    constructor
    · rintro ⟨notSkipped, isIncluded⟩ directive member
      exact ⟨fun isName isCoerced => notSkipped ⟨directive, member, isName, isCoerced⟩,
        fun isName isCoerced => isIncluded ⟨directive, member, isName, isCoerced⟩⟩
    · intro each
      constructor
      · rintro ⟨directive, member, isName, isCoerced⟩
        exact (each directive member).1 isName isCoerced
      · rintro ⟨directive, member, isName, isCoerced⟩
        exact (each directive member).2 isName isCoerced

end Cleared

/-! ## Introspection -/

/-- A field of introspection where it is written: one that the query type has for it, or a field of
a type of introspection. -/
def IsMeta (request : Request) (parent : NamedType) (node : Field) (definition : FieldDefinition) :
    Prop :=
  request.registry.field? parent node.name = some definition ∧
    (definition.IsIntrospection ∨ parent ∈ Meta.all)

/-- The arguments of a field of introspection are read as they are coerced: the type of the coerced
name is described, and deprecated members are shown if the coerced argument asks for them. -/
structure ReadsMeta (request : Request) (node : Field) (definition : FieldDefinition)
    (arguments : Arguments) : Prop where
  type : definition = Meta.typeField → ∃ name source,
    arguments = [("name", ⟨.string name, source⟩)] ∧
    ∀ others, request.introspect "__type" (node :: others) =
      (MetaObject.named? request.registry name).elim .null fun object =>
        request.describe request.depth object (node :: others)
  deprecated : ∀ others {α : Type} (deprecation : α → Option String) (members : List α),
    ∀ member ∈ members,
      member ∈ MetaObject.visible (request.includesDeprecated (node :: others)) deprecation
          members ↔
        Arguments.get? arguments "includeDeprecated" = some (.bool true) ∨
          deprecation member = none

private theorem metaArgument?_eq (request : Request) (node : Field) (others : List Field)
    (name : String) :
    request.metaArgument? (node :: others) name =
      node.arguments.untyped? request.variableValues name :=
  rfl

private theorem includesDeprecated_iff (request : Request) (node : Field) (others : List Field) :
    request.includesDeprecated (node :: others) = true ↔
      node.arguments.untyped? request.variableValues "includeDeprecated" = some (.bool true) := by
  rw [includesDeprecated, metaArgument?_eq]
  split
  · rename_i flag isFlag
    simp [isFlag]
  · rename_i notFlag
    exact ⟨nofun, fun isTrue => absurd isTrue (notFlag true)⟩

/-- Deprecated members are shown as the coerced argument says if it is read as that. -/
private theorem mem_visible {node : Field} {arguments : Arguments}
    (asCoerced :
      node.arguments.untyped? request.variableValues "includeDeprecated" = some (.bool true) ↔
        Arguments.get? arguments "includeDeprecated" = some (.bool true))
    (others : List Field) {α : Type} (deprecation : α → Option String) (members : List α)
    (member : α) (listed : member ∈ members) :
    member ∈ MetaObject.visible (request.includesDeprecated (node :: others)) deprecation members ↔
      Arguments.get? arguments "includeDeprecated" = some (.bool true) ∨
        deprecation member = none := by
  rw [← asCoerced, ← request.includesDeprecated_iff node others, MetaObject.visible,
    List.mem_filter, Bool.or_eq_true, Option.isNone_iff_eq_none]
  exact and_iff_right listed

private theorem untyped?_of_unknown {written : ArgumentList}
    {definitions : List InputValueDefinition} {name : String} (values : Variables)
    (known : ∀ name ∈ Named.names written, Named.find? definitions name ≠ none)
    (unknown : Named.find? definitions name = none) : written.untyped? values name = none := by
  have notWritten : Named.value? written name = none :=
    Named.value?_eq_none.mpr fun isWritten => known name isWritten unknown
  rw [ArgumentList.untyped?, notWritten]
  rfl

private theorem arguments_of_meta :
    ∀ type ∈ Meta.all, ∀ field ∈ type.fields?.getD [],
      field.arguments = [] ∨ field.arguments = [Meta.includeDeprecated] := by
  simp [Meta.all, Meta.schemaType, Meta.typeType, Meta.fieldType, Meta.inputValueType,
    Meta.enumValueType, Meta.directiveType, Meta.typeKindType, Meta.directiveLocationType,
    Meta.metaType, Meta.deprecationFields, NamedType.fields?, Meta.enumOf, Meta.field]

private theorem IsMeta.arguments {parent : NamedType} {node : Field} {definition : FieldDefinition}
    (isMeta : request.IsMeta parent node definition) :
    definition = Meta.typeField ∨ definition.arguments = [] ∨
      definition.arguments = [Meta.includeDeprecated] := by
  rcases isMeta with ⟨isField, (rfl | rfl) | isMeta⟩
  · exact .inr (.inl rfl)
  · exact .inl rfl
  · rw [Registry.field?] at isField
    split at isField
    · cases isField
      exact .inr (.inl rfl)
    · split at isField
      · cases isField
        exact .inr (.inl rfl)
      · split at isField
        · cases isField
          exact .inl rfl
        · rcases Option.bind_eq_some_iff.mp isField with ⟨fields, isFields, found⟩
          refine .inr (arguments_of_meta parent isMeta definition ?_)
          rw [isFields]
          exact (Named.find?_mem found).1

namespace Cleared

variable {parent : NamedType} {node : Field} {definition : FieldDefinition}

/-- The arguments of a field of introspection are known and vetted. -/
private theorem vetted_meta (cleared : request.Cleared schema provided)
    (meets : request.Meets (some parent) (.field node))
    (isMeta : request.IsMeta parent node definition) :
    (∀ name ∈ Named.names node.arguments, Named.find? definition.arguments name ≠ none) ∧
      ∀ input ∈ definition.arguments,
        input.Vetted request.registry request.operation node.arguments := by
  rcases meets.stands with ⟨around, owner, selections, reaches, has, isSelection⟩
  have stands : (request.subject.only around).HasField
      (.on request.registry (some parent) node) :=
    ⟨owner, some parent, selections, node, has, isSelection, rfl⟩
  have distinct : (Named.names definition.arguments).Nodup := by
    rcases isMeta.arguments with rfl | isNone | isSingle
    · simp [Meta.typeField, Named.names]
    · simp [isNone, Named.names]
    · simp [isSingle, Named.names]
  exact stands.vetted cleared.yields cleared.passed cleared.silent cleared.operation
    cleared.provides.isInput reaches isMeta.1 distinct

/-- The type that is looked up is the one of the coerced name, or there is none where the name is
refused. -/
private theorem reads_type (cleared : request.Cleared schema provided)
    (meets : request.Meets (some parent) (.field node))
    (isMeta : request.IsMeta parent node Meta.typeField) :
    (¬request.operation.NullsArgument provided node.arguments "name" ∧ ∃ arguments,
      request.coerced node.arguments Meta.typeField.arguments = .ok arguments ∧
        request.ReadsMeta node Meta.typeField arguments) ∨
    (request.operation.NullsArgument provided node.arguments "name" ∧
      (∃ error, request.coerced node.arguments Meta.typeField.arguments = .error error) ∧
      ∀ others, request.introspect "__type" (node :: others) = .null) := by
  rcases cleared.vetted_meta meets isMeta with ⟨known, vetted⟩
  have answer (others : List Field) : request.introspect "__type" (node :: others) =
      (((node.arguments.untyped? request.variableValues "name").bind Json.asString?).bind
        (MetaObject.named? request.registry)).elim .null fun object =>
          request.describe request.depth object (node :: others) :=
    rfl
  rcases Scalar.exists_string with ⟨named, isBuiltIn, isString, isScalar⟩
  rcases cleared.required (vetted _ (List.mem_singleton_self _)) isBuiltIn isScalar
    Scalar.string_readsAsWritten (by rw [isString]) rfl with
    ⟨notNulled, _, source, ⟨name, rfl⟩, isRead, isCoerced⟩ | ⟨nulled, isRead, isError⟩
  · refine .inl ⟨notNulled, _, isCoerced, fun _ => ⟨name, source, rfl, fun others => ?_⟩, ?_⟩
    · rw [answer, isRead]
      rfl
    · have notRead : node.arguments.untyped? request.variableValues "includeDeprecated" = none :=
        untyped?_of_unknown request.variableValues known rfl
      exact mem_visible (by rw [notRead]; exact ⟨nofun, nofun⟩)
  · refine .inr ⟨nulled, isError, fun others => ?_⟩
    rw [answer, isRead]
    rfl

/-- Deprecated members are shown as the coerced argument says. -/
private theorem reads_deprecated (cleared : request.Cleared schema provided)
    (meets : request.Meets (some parent) (.field node))
    (isMeta : request.IsMeta parent node definition) (notType : definition ≠ Meta.typeField) :
    ∃ arguments, request.coerced node.arguments definition.arguments = .ok arguments ∧
      request.ReadsMeta node definition arguments := by
  rcases cleared.vetted_meta meets isMeta with ⟨known, vetted⟩
  rcases isMeta.arguments with isType | isNone | isSingle
  · exact absurd isType notType
  · rw [isNone] at known ⊢
    refine ⟨[], rfl, fun isType => absurd isType notType, mem_visible ?_⟩
    rw [untyped?_of_unknown request.variableValues known rfl]
    exact ⟨nofun, nofun⟩
  · rw [isSingle] at vetted ⊢
    rcases Scalar.exists_boolean with ⟨named, isBuiltIn, isBoolean, isScalar⟩
    have agrees := cleared.agrees (vetted _ (List.mem_singleton_self _)) isBuiltIn isScalar
      Scalar.boolean_readsAsWritten (by rw [isBoolean]; rfl)
    have notDefault : Meta.includeDeprecated.default ≠ some (.bool true) := by
      simp [Meta.includeDeprecated]
    rcases agrees.optional rfl rfl notDefault with ⟨arguments, isCoerced, asCoerced⟩
    exact ⟨arguments, isCoerced, fun isType => absurd isType notType, mem_visible asCoerced⟩

end Cleared

/-- Arguments that are read without types are read as they are coerced. An execution of an accepted
request resolves fields that are met, and what is collected under them is met. Of what is met,
selections are left in or out by the coerced conditions of their directives, and fields that are of
introspection where they are written are answered by their coerced arguments. Only where null
overrides the default of a variable in a condition, or in the name of a type, is the argument
refused: such a directive leaves its selection in, and no type is found. -/
theorem reads_as_coerced (built : schema.build = .ok request.registry)
    (operation : request.operation ∈ request.document.operations)
    (accepted : request.document.checkRequest request.registry defaultPlan request.operation
      provided = { variableValues := request.variableValues }) :
    (∀ rootValue outstanding, request.Runs anyAnswer (request.initial rootValue) outstanding →
      ∀ task ∈ outstanding.2, request.MeetsAll task.fields) ∧
    (∀ fields objectName, request.MeetsAll fields →
      ∀ group ∈ request.collectFields objectName (fields.map Field.selections),
        request.MeetsAll group.2) ∧
    (∀ parent selection, request.Meets parent selection →
      request.Conditional provided selection.directives) ∧
    ∀ parent node definition, request.Meets (some parent) (.field node) →
      request.IsMeta parent node definition →
      (¬(definition = Meta.typeField ∧
          request.operation.NullsArgument provided node.arguments "name") ∧ ∃ arguments,
        request.coerced node.arguments definition.arguments = .ok arguments ∧
          request.ReadsMeta node definition arguments) ∨
      (definition = Meta.typeField ∧
        request.operation.NullsArgument provided node.arguments "name" ∧
        (∃ error, request.coerced node.arguments definition.arguments = .error error) ∧
        ∀ others, request.introspect "__type" (node :: others) = .null) := by
  have cleared := cleared_of_accepted built operation accepted
  refine ⟨?_, ?_, fun parent selection meets => cleared.conditional meets, ?_⟩
  · intro rootValue outstanding runs task member
    exact (runs.steps (request.initial_valid rootValue)).meets (.resolve task)
      (Multiset.mem_map_of_mem _ member)
  · exact fun fields objectName meets group collected => meets.under.collected collected
  · intro parent node definition meets isMeta
    by_cases isType : definition = Meta.typeField
    · subst isType
      rcases cleared.reads_type meets isMeta with ⟨notNulled, isRead⟩ | nulled
      · exact .inl ⟨fun both => notNulled both.2, isRead⟩
      · exact .inr ⟨rfl, nulled⟩
    · exact .inl ⟨fun both => isType both.1, cleared.reads_deprecated meets isMeta isType⟩

end Request

namespace Shelf

/-! A field that is skipped and a type that is looked up, both by variables with defaults. -/

def query : NamedType where
  key := .custom 0
  name := "Query"
  shape := .object
    { fields :=
        [{ name := "a", type := .named "Int" },
          { name := "b", type := .named "Int", deprecation := some "Old." }] }

def schema : Schema where
  pool := [query]
  query := query.toInstance

def registry : Registry where
  types := Scalar.all ++ Meta.all ++ [query]
  query := query
  mutation := none
  subscription := none
  directives := DirectiveDefinition.builtIn
  possibleTypes := []

def skip : Directive := ⟨⟨2, 5⟩, "skip", [("if", .variable "s")]⟩

def skipped : Field := ⟨⟨2, 3⟩, none, "a", [], [skip], []⟩

def members : Field :=
  ⟨⟨3, 21⟩, none, "fields", [("includeDeprecated", .variable "s")], [],
    [.field ⟨⟨3, 53⟩, none, "name", [], [], []⟩]⟩

def typed : Field := ⟨⟨3, 3⟩, none, "__type", [("name", .variable "n")], [], [.field members]⟩

def operation : Operation :=
  ⟨⟨1, 1⟩, .query, none,
    [⟨⟨1, 7⟩, "s", .named "Boolean", some (.boolean true)⟩,
      ⟨⟨1, 28⟩, "n", .named "String", some (.string "Query")⟩], [],
    [.field skipped, .field typed]⟩

def request (values : Variables) : Request where
  registry := registry
  document := ⟨[.operation operation]⟩
  operation := operation
  variableValues := values
  token := ⟨0, none⟩
  depth := 10

/-- The values of the variables if none are given. -/
def defaults : Variables :=
  [("s", ⟨.bool true, .variableDefault, .named "Boolean"⟩),
    ("n", ⟨.string "Query", .variableDefault, .named "String"⟩)]

/-- The values of the variables if null is given for both. -/
def nulls : Variables :=
  [("s", ⟨.null, .explicit, .named "Boolean"⟩), ("n", ⟨.null, .explicit, .named "String"⟩)]

def json : Json :=
  .object [("fields", .array [.object [("name", .string "a")], .object [("name", .string "b")]])]

/-- An argument is refused because its variable is null. -/
def refusal (name type variableName : String) : CoercionError where
  message := s!"Argument \"{name}\" has invalid value ${variableName}. " ++
    s!"Expected non-nullable type \"{type}\" not to be null, but variable \"${variableName}\" is."
  path := [.key name]

private theorem built : schema.build = .ok registry := by cbv

private theorem meets (values : Variables) {node : Field}
    (member : .field node ∈ operation.selections) :
    (request values).Meets (some query) (.field node) :=
  .operation member

private theorem isMeta (values : Variables) : (request values).IsMeta query typed Meta.typeField :=
  ⟨rfl, .inl (.inr rfl)⟩

end Shelf

/-- By default the field is skipped, and the type is described with its deprecated field. -/
theorem Request.reads_as_coerced_of_shelf :
    Shelf.schema.build = .ok (Shelf.request Shelf.defaults).registry ∧
      (Shelf.request Shelf.defaults).operation ∈
        (Shelf.request Shelf.defaults).document.operations ∧
      (Shelf.request Shelf.defaults).document.checkRequest (Shelf.request Shelf.defaults).registry
          defaultPlan (Shelf.request Shelf.defaults).operation [] =
        { variableValues := (Shelf.request Shelf.defaults).variableValues } ∧
      (Shelf.request Shelf.defaults).Conditional [] [Shelf.skip] ∧
      (Shelf.request Shelf.defaults).includes [Shelf.skip] = false ∧
      (∃ arguments, (Shelf.request Shelf.defaults).coerced Shelf.typed.arguments
          Meta.typeField.arguments = .ok arguments ∧
        (Shelf.request Shelf.defaults).ReadsMeta Shelf.typed Meta.typeField arguments) ∧
      (Shelf.request Shelf.defaults).introspect "__type" [Shelf.typed] = Shelf.json := by
  have built : Shelf.schema.build = .ok (Shelf.request Shelf.defaults).registry := Shelf.built
  have operation : (Shelf.request Shelf.defaults).operation ∈
      (Shelf.request Shelf.defaults).document.operations := List.mem_singleton_self _
  have accepted : (Shelf.request Shelf.defaults).document.checkRequest
      (Shelf.request Shelf.defaults).registry defaultPlan (Shelf.request Shelf.defaults).operation
        [] = { variableValues := (Shelf.request Shelf.defaults).variableValues } := by
    rw [Document.checkRequest, validate_eq_walk]
    rfl
  have agrees := Request.reads_as_coerced built operation accepted
  have conditional := agrees.2.2.1 _ _ (Shelf.meets Shelf.defaults List.mem_cons_self)
  refine ⟨built, operation, accepted, conditional, rfl, ?_, rfl⟩
  rcases agrees.2.2.2 _ _ _ (Shelf.meets Shelf.defaults (List.mem_cons_of_mem _ List.mem_cons_self))
    (Shelf.isMeta Shelf.defaults) with ⟨_, isRead⟩ | ⟨_, _, ⟨error, isError⟩, _⟩
  · exact isRead
  · cases isError

namespace Booth

/-! An interface that has a field of its own in the place of the one that looks up types. -/

def own : FieldDefinition where
  name := "__type"
  type := .named "Int"
  arguments := [{ name := "n", type := .named "Int" }]

def described : NamedType where
  key := .custom 0
  name := "Described"
  shape := .interface { fields := [own] }

def query : NamedType where
  key := .custom 1
  name := "Query"
  shape := .object { interfaces := [.named "Described"], fields := [own] }

def schema : Schema where
  pool := [described, query]
  query := query.toInstance
  types := [described.toInstance]

def registry : Registry where
  types := Scalar.all ++ Meta.all ++ [query, described]
  query := query
  mutation := none
  subscription := none
  directives := DirectiveDefinition.builtIn
  possibleTypes := [("Described", ["Query"])]

def typed : Field := ⟨⟨1, 22⟩, none, "__type", [("n", .int 1)], [], []⟩

def operation : Operation :=
  ⟨⟨1, 1⟩, .query, none, [], [], [.inline ⟨⟨1, 3⟩, some "Described", [], [.field typed]⟩]⟩

def request : Request where
  registry := registry
  document := ⟨[.operation operation]⟩
  operation := operation
  variableValues := []
  token := ⟨0, none⟩
  depth := 10

def refusal : CoercionError where
  message := "Argument \"name\" of required type \"String!\" was not provided."
  path := [.key "name"]

end Booth

/-- Accepted requests have conditions, and names of types to look up, that coercion refuses: where
null overrides the default of a variable, and where the document writes the arguments of another
field. -/
theorem Request.not_read_as_coerced :
    (Shelf.schema.build = .ok (Shelf.request Shelf.nulls).registry ∧
      (Shelf.request Shelf.nulls).operation ∈ (Shelf.request Shelf.nulls).document.operations ∧
      (Shelf.request Shelf.nulls).document.checkRequest (Shelf.request Shelf.nulls).registry
          defaultPlan (Shelf.request Shelf.nulls).operation [("s", .null), ("n", .null)] =
        { variableValues := (Shelf.request Shelf.nulls).variableValues } ∧
      (∃ task ∈ ((Shelf.request Shelf.nulls).initial .null).2, task.fields = [Shelf.skipped]) ∧
      (Shelf.request Shelf.nulls).coerced Shelf.skip.arguments
        DirectiveDefinition.skipDirective.arguments = .error (Shelf.refusal "if" "Boolean!" "s") ∧
      (∃ task ∈ ((Shelf.request Shelf.nulls).initial .null).2,
        task.definition = Meta.typeField ∧ task.fields = [Shelf.typed]) ∧
      (Shelf.request Shelf.nulls).coerced Shelf.typed.arguments Meta.typeField.arguments =
        .error (Shelf.refusal "name" "String!" "n")) ∧
    Booth.schema.build = .ok Booth.request.registry ∧
      Booth.request.operation ∈ Booth.request.document.operations ∧
      Booth.request.document.checkRequest Booth.request.registry defaultPlan
          Booth.request.operation [] = { variableValues := Booth.request.variableValues } ∧
      (∃ task ∈ (Booth.request.initial .null).2,
        task.definition = Meta.typeField ∧ task.fields = [Booth.typed]) ∧
      Booth.request.coerced Booth.typed.arguments Meta.typeField.arguments =
        .error Booth.refusal := by
  have ofShelf : (Shelf.request Shelf.nulls).document.checkRequest
      (Shelf.request Shelf.nulls).registry defaultPlan (Shelf.request Shelf.nulls).operation
        [("s", .null), ("n", .null)] =
          { variableValues := (Shelf.request Shelf.nulls).variableValues } := by
    rw [Document.checkRequest, validate_eq_walk]
    rfl
  have built : Booth.schema.build = .ok Booth.request.registry := by cbv
  have ofBooth : Booth.request.document.checkRequest Booth.request.registry defaultPlan
      Booth.request.operation [] = { variableValues := Booth.request.variableValues } := by
    rw [Document.checkRequest, validate_eq_walk]
    rfl
  exact ⟨⟨Shelf.built, List.mem_singleton_self _, ofShelf,
      ⟨_, List.mem_cons_self, rfl⟩, rfl,
      ⟨_, List.mem_cons_of_mem _ List.mem_cons_self, rfl, rfl⟩, rfl⟩,
    built, List.mem_singleton_self _, ofBooth, ⟨_, List.mem_singleton_self _, rfl, rfl⟩, rfl⟩

end GraphQL
