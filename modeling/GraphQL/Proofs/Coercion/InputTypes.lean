import GraphQL.Proofs.Coercion.Relation
import GraphQL.Proofs.Schema.Coherence

/-!
What coercion finds fault with. At types for inputs it is always the input: the type is known, and
so are those of the input fields under it. The build of a registry sees to it that arguments of
fields and input fields have such types. It does not look at the arguments of directives, and one
of another type takes no single value.
-/

namespace GraphQL

/-! ## Blame -/

def unknownTypeMessage (name : String) : String := s!"Unknown type \"{name}\"."

def notInputMessage (name : String) : String := s!"Type \"{name}\" is not an input type."

/-- A message that does not call a type unknown, nor, if it is one for inputs, say that it is none. -/
structure NamedType.Spares (named : NamedType) (message : String) : Prop where
  known : ∀ name, message ≠ unknownTypeMessage name
  input : named.isInput = true → ∀ name, message ≠ notInputMessage name

/-- At references to the type a reader fails only with messages that spare it. -/
private def InputReader.Spares (registry : Registry) (named : NamedType) (reader : InputReader) :
    Prop :=
  ∀ type, registry.resolve? type = some named → ∀ error, reader type = .error error →
    named.Spares error.message

namespace NamedType

variable {named : NamedType}

private theorem spares_notInput (name : String) (notInput : named.isInput = false) :
    named.Spares (notInputMessage name) := by
  refine ⟨fun other => ?_, fun isInput => ?_⟩
  · simp [notInputMessage, unknownTypeMessage, toString, String.ext_iff]
  · rw [notInput] at isInput
    cases isInput

private theorem spares_of_opening {message : String}
    (known : message.toList.take 9 ≠ ['U', 'n', 'k', 'n', 'o', 'w', 'n', ' ', 't'])
    (input : message.toList.take 4 ≠ ['T', 'y', 'p', 'e']) : named.Spares message := by
  refine ⟨fun name same => known ?_, fun _ name same => input ?_⟩
  · rw [same]
    simp [unknownTypeMessage, toString]
  · rw [same]
    simp [notInputMessage, toString]

private theorem spares_nullValueRefusal (type : TypeRef) :
    named.Spares (Registry.nullValueRefusal type) := by
  unfold Registry.nullValueRefusal
  apply spares_of_opening <;> simp [toString]

private theorem spares_nullLiteralRefusal (type : TypeRef) :
    named.Spares (Registry.nullLiteralRefusal type) := by
  unfold Registry.nullLiteralRefusal
  apply spares_of_opening <;> simp [toString]

end NamedType

namespace InputReader

variable {registry : Registry} {named : NamedType}

private theorem throughWrappers_spares (isNull : Bool) {refusal : TypeRef → String}
    {items? : Option InputReader} {leaf : InputReader}
    (refuses : ∀ type, named.Spares (refusal type))
    (items : ∀ reader ∈ items?, Spares registry named reader)
    (bare : Spares registry named leaf) :
    Spares registry named (throughWrappers isNull refusal items? leaf) := by
  have unwrapped : ∀ type, registry.resolve? type = some named → ∀ error,
      (if isNull then .ok .null else leaf type) = .error error → named.Spares error.message := by
    intro type resolved error failed
    split at failed
    · cases failed
    · exact bare type resolved error failed
  intro type resolved
  induction type with
  | named | direct | deferred => exact unwrapped _ resolved
  | nonNull inner induction =>
      intro error failed
      simp only [throughWrappers] at failed
      split at failed
      · cases failed
        exact refuses _
      · exact induction resolved error failed
  | list item induction =>
      intro error failed
      simp only [throughWrappers] at failed
      split at failed
      · cases failed
      · cases items? with
        | some reader => exact items reader rfl item resolved error failed
        | none =>
            simp only at failed
            rcases bind_eq_error failed with failed | ⟨_, _, failed⟩
            · exact induction resolved error failed
            · cases failed

private theorem throughWrappers_spares_alone (isNull : Bool) {refusal : TypeRef → String}
    {leaf : InputReader} (refuses : ∀ type, named.Spares (refusal type))
    (bare : Spares registry named leaf) :
    Spares registry named (throughWrappers isNull refusal none leaf) :=
  throughWrappers_spares isNull refuses (by simp) bare

/-- Wrappers do not come between a single value and a type that takes none. -/
private theorem throughWrappers_fails {refusal : TypeRef → String} {leaf : InputReader}
    (bare : ∀ type, registry.resolve? type = some named →
      leaf type = .error ⟨notInputMessage type.typeName, []⟩)
    {type : TypeRef} (resolved : registry.resolve? type = some named) :
    throughWrappers false refusal none leaf type =
      .error ⟨notInputMessage type.typeName, []⟩ := by
  induction type with
  | named | direct | deferred => exact bare _ resolved
  | nonNull inner induction => exact induction resolved
  | list item induction =>
      simp only [throughWrappers, Bool.false_eq_true, if_false]
      rw [induction resolved]
      rfl

private theorem readItems_spares {readers : List InputReader}
    (each : ∀ reader ∈ readers, Spares registry named reader) (index : Nat) :
    ∀ type, registry.resolve? type = some named → ∀ error,
      readItems readers index type = .error error → named.Spares error.message := by
  intro type resolved error failed
  rcases readItems_eq_error failed with ⟨earlier, reader, later, inner, rfl, atItem, rfl, _⟩
  exact each reader (List.mem_append_right _ List.mem_cons_self) type resolved inner atItem

/-- Readers that spare whatever type they are asked to read at. -/
private def SpareAll (registry : Registry) (readers : List (String × InputReader)) : Prop :=
  ∀ entry ∈ readers, ∀ named, Spares registry named entry.2

end InputReader

/-! ## Input objects -/

/-- The input fields of registered types have types for inputs. -/
private def Registry.InputsNested (registry : Registry) : Prop :=
  ∀ type ∈ registry.types, ∀ fields ∈ type.inputFields?, ∀ field ∈ fields,
    registry.isInput field.type = true

private theorem Registry.resolve?_of_isInput {registry : Registry} {type : TypeRef}
    (isInput : registry.isInput type = true) :
    ∃ named, registry.resolve? type = some named ∧ named.isInput = true :=
  Option.any_eq_true _ _ |>.mp isInput

namespace InputObject

variable {registry : Registry} {named : NamedType} {owner : String}
  {given : List (String × InputReader)} {definitions : List InputValueDefinition}

private theorem absentEntry_spares {definition : InputValueDefinition} {error : CoercionError}
    (failed : definition.absentEntry owner = .error error) : named.Spares error.message := by
  rw [InputValueDefinition.absentEntry] at failed
  split at failed
  · cases failed
  · split at failed
    · cases failed
      apply NamedType.spares_of_opening <;> simp [toString]
    · cases failed

private theorem entries_spares (readers : InputReader.SpareAll registry given)
    (nested : ∀ definition ∈ definitions, registry.isInput definition.type = true)
    {error : CoercionError} (failed : entries owner given definitions = .error error) :
    named.Spares error.message := by
  rcases entries_eq_error failed with ⟨earlier, definition, later, rfl, atEntry, _⟩
  have isInput := nested definition (List.mem_append_right _ List.mem_cons_self)
  rw [entry] at atEntry
  cases isGiven : Named.value? given definition.name with
  | some reader =>
      rw [isGiven] at atEntry
      rcases mapError_eq_error (map_eq_error atEntry) with ⟨inner, inside, rfl⟩
      rcases Registry.resolve?_of_isInput isInput with ⟨type, resolved, isInputType⟩
      have spares := readers _ (Named.value?_mem isGiven) type _ resolved inner inside
      exact ⟨spares.known, fun _ => spares.input isInputType⟩
  | none =>
      rw [isGiven] at atEntry
      exact absentEntry_spares atEntry

private theorem read_spares {names : List String} (readers : InputReader.SpareAll registry given)
    (nested : ∀ definition ∈ definitions, registry.isInput definition.type = true)
    {error : CoercionError} (failed : read owner definitions names given = .error error) :
    named.Spares error.message := by
  rw [read] at failed
  split at failed
  · cases failed
    apply NamedType.spares_of_opening <;> simp [toString]
  · rcases bind_eq_error failed with failed | ⟨_, _, failed⟩
    · exact entries_spares readers nested failed
    · cases failed

end InputObject

/-! ## Types without wrappers -/

namespace Registry

variable {registry : Registry} {named : NamedType}

private theorem inputType_eq_error {type : TypeRef} (resolved : registry.resolve? type = some named)
    (notInput : named.isInput = false) :
    registry.inputType type = .error ⟨notInputMessage type.typeName, []⟩ := by
  have isName : named.name = type.typeName := (Named.find?_mem resolved).2
  rw [inputType, resolved]
  simp only [notInput, Bool.false_eq_true, if_false, isName, notInputMessage]

/-- What follows a successful look at the type is at a type for inputs. -/
private theorem atInput_spares {type : TypeRef} {next : NamedType → Except CoercionError Json}
    (resolved : registry.resolve? type = some named) {error : CoercionError}
    (failed : registry.inputType type >>= next = .error error)
    (later : named.isInput = true → next named = .error error → named.Spares error.message) :
    named.Spares error.message := by
  cases isInput : named.isInput with
  | false =>
      rw [inputType_eq_error resolved isInput] at failed
      cases failed
      exact NamedType.spares_notInput _ isInput
  | true =>
      rw [inputType_eq_ok.mpr ⟨resolved, isInput⟩] at failed
      exact later isInput failed

private theorem readAt_spares (nested : registry.InputsNested) {type : TypeRef}
    (resolved : registry.resolve? type = some named)
    {definitions : List InputValueDefinition} (isObject : named.shape = .inputObject definitions)
    {names : List String} {given : List (String × InputReader)}
    (readers : InputReader.SpareAll registry given) {error : CoercionError}
    (failed : InputObject.read named.name definitions names given = .error error) :
    named.Spares error.message := by
  have isDefined : named.inputFields? = some definitions := by
    rw [NamedType.inputFields?, isObject]
  exact InputObject.read_spares readers
    (nested named (Named.find?_mem resolved).1 definitions isDefined) failed

private theorem valueAtNamed_spares (nested : registry.InputsNested) {value : Json}
    {readers? : Option (List (String × InputReader))}
    (readers : ∀ given ∈ readers?, InputReader.SpareAll registry given) :
    InputReader.Spares registry named (registry.valueAtNamed value readers?) := by
  intro type resolved error failed
  rw [valueAtNamed] at failed
  refine atInput_spares resolved failed fun isInput failed => ?_
  cases shape : named.shape with
  | scalar scalar =>
      simp only [shape] at failed
      rcases mapError_eq_error failed with ⟨reason, _, rfl⟩
      apply NamedType.spares_of_opening <;> simp [toString]
  | enum values =>
      simp only [shape] at failed
      split at failed
      · cases failed
      · cases failed
        apply NamedType.spares_of_opening <;> simp [toString]
  | inputObject definitions =>
      simp only [shape] at failed
      cases readers? with
      | none =>
          cases failed
          apply NamedType.spares_of_opening <;> simp [toString]
      | some given => exact readAt_spares nested resolved shape (readers given rfl) failed
  | object | interface | union =>
      rw [NamedType.isInput, shape] at isInput
      cases isInput

private theorem literalAtNamed_spares (nested : registry.InputsNested) {literal : Literal}
    {fields? : Option (List String × List (String × InputReader))}
    (readers : ∀ fields ∈ fields?, InputReader.SpareAll registry fields.2) :
    InputReader.Spares registry named (registry.literalAtNamed literal fields?) := by
  intro type resolved error failed
  rw [literalAtNamed] at failed
  refine atInput_spares resolved failed fun isInput failed => ?_
  cases shape : named.shape with
  | scalar scalar =>
      simp only [shape] at failed
      rcases mapError_eq_error failed with ⟨reason, _, rfl⟩
      apply NamedType.spares_of_opening <;> simp [toString]
  | enum values =>
      simp only [shape] at failed
      split at failed
      · split at failed
        · cases failed
        · cases failed
          apply NamedType.spares_of_opening <;> simp [toString]
      · cases failed
        apply NamedType.spares_of_opening <;> simp [toString]
  | inputObject definitions =>
      simp only [shape] at failed
      cases fields? with
      | none =>
          cases failed
          apply NamedType.spares_of_opening <;> simp [toString]
      | some fields => exact readAt_spares nested resolved shape (readers fields rfl) failed
  | object | interface | union =>
      rw [NamedType.isInput, shape] at isInput
      cases isInput

/-! ## Inputs -/

private theorem coerceValue_spares (nested : registry.InputsNested) (json : Json) :
    ∀ named, InputReader.Spares registry named (registry.coerceValue json) := by
  have noReaders : ∀ given ∈ (none : Option (List (String × InputReader))),
      InputReader.SpareAll registry given := by
    intro given isGiven
    cases isGiven
  induction json using Json.induct with
  | null =>
      intro named
      rw [coerceValue]
      refine InputReader.throughWrappers_spares_alone true
        NamedType.spares_nullValueRefusal ?_
      intro type resolved error failed
      cases failed
  | array items each =>
      intro named
      rw [coerceValue]
      refine InputReader.throughWrappers_spares false NamedType.spares_nullValueRefusal ?_
        (valueAtNamed_spares nested noReaders)
      rintro reader isReader type resolved error failed
      cases isReader
      simp only [coerceItems_eq] at failed
      refine InputReader.readItems_spares ?_ 0 type resolved error (map_eq_error failed)
      exact List.forall_mem_map.mpr fun item member => each item member named
  | object fields each =>
      intro named
      rw [coerceValue]
      refine InputReader.throughWrappers_spares_alone false
        NamedType.spares_nullValueRefusal (valueAtNamed_spares nested ?_)
      rintro given isGiven
      cases isGiven
      rw [fieldReaders_eq]
      exact List.forall_mem_map.mpr each
  | bool | number | string =>
      intro named
      rw [coerceValue]
      exact InputReader.throughWrappers_spares_alone false
        NamedType.spares_nullValueRefusal (valueAtNamed_spares nested noReaders)

private theorem variableAt_spares {named : NamedType} (values? : Option Variables) (name : String) :
    InputReader.Spares registry named (variableAt values? name) := by
  intro type _ error failed
  have refused (value : Json)
      (failed : (if value.isNull && type.isNonNull then
          .error ⟨s!"Expected non-nullable type \"{type.text}\" not to be null, but variable \"${name}\" is.", []⟩
        else .ok value : Except CoercionError Json) = .error error) :
      named.Spares error.message := by
    split at failed
    · cases failed
      apply NamedType.spares_of_opening <;> simp [toString]
    · cases failed
  cases values? with
  | none => cases failed
  | some values => exact refused _ failed

private theorem spareAll_literalReaders {values? : Option Variables}
    {fields : List (String × Literal)} (each : ∀ field ∈ fields, ∀ named,
      InputReader.Spares registry named (registry.coerceLiteral values? field.2)) :
    InputReader.SpareAll registry (registry.literalReaders values? fields) := by
  induction fields with
  | nil => exact nofun
  | cons head tail induction =>
      have parts := List.forall_mem_cons.mp each
      rw [literalReaders]
      split
      · exact induction parts.2
      · exact List.forall_mem_cons.mpr ⟨parts.1, induction parts.2⟩

private theorem coerceLiteral_spares (nested : registry.InputsNested) (values? : Option Variables)
    (literal : Literal) :
    ∀ named, InputReader.Spares registry named (registry.coerceLiteral values? literal) := by
  have noReaders : ∀ fields ∈ (none : Option (List String × List (String × InputReader))),
      InputReader.SpareAll registry fields.2 := by
    intro fields isGiven
    cases isGiven
  induction literal using Literal.induct with
  | mentioned name =>
      intro named
      rw [coerceLiteral]
      exact variableAt_spares values? name
  | null =>
      intro named
      rw [coerceLiteral]
      refine InputReader.throughWrappers_spares_alone true
        NamedType.spares_nullLiteralRefusal ?_
      intro type resolved error failed
      cases failed
  | list items each =>
      intro named
      rw [coerceLiteral]
      refine InputReader.throughWrappers_spares false NamedType.spares_nullLiteralRefusal ?_
        (literalAtNamed_spares nested noReaders)
      rintro reader isReader type resolved error failed
      cases isReader
      simp only [coerceLiterals_eq] at failed
      refine InputReader.readItems_spares ?_ 0 type resolved error (map_eq_error failed)
      exact List.forall_mem_map.mpr fun item member => each item member named
  | object fields each =>
      intro named
      rw [coerceLiteral]
      refine InputReader.throughWrappers_spares_alone false
        NamedType.spares_nullLiteralRefusal (literalAtNamed_spares nested ?_)
      rintro given isGiven
      cases isGiven
      exact spareAll_literalReaders each
  | int | float | string | boolean | enum =>
      intro named
      rw [coerceLiteral]
      exact InputReader.throughWrappers_spares_alone false
        NamedType.spares_nullLiteralRefusal (literalAtNamed_spares nested noReaders)

end Registry

namespace RawInput

variable {registry : Registry} {named : NamedType}

private theorem read_spares (nested : registry.InputsNested) (values? : Option Variables)
    (input : RawInput) (named : NamedType) :
    InputReader.Spares registry named (input.read registry values?) := by
  cases input with
  | json json => exact registry.coerceValue_spares nested json named
  | literal literal => exact registry.coerceLiteral_spares nested values? literal named

/-- Neither null nor a list nor a variable. -/
structure IsSingle (input : RawInput) : Prop where
  notNull : input.isNull = false
  notList : input.items? = none
  notVariable : ∀ name, input ≠ .literal (.variable name)

private theorem read_notInput (notInput : named.isInput = false) (values? : Option Variables)
    {input : RawInput} (single : input.IsSingle) {type : TypeRef}
    (resolved : registry.resolve? type = some named) :
    input.read registry values? type = .error ⟨notInputMessage type.typeName, []⟩ := by
  have bare {next : NamedType → Except CoercionError Json} (type : TypeRef)
      (resolved : registry.resolve? type = some named) :
      registry.inputType type >>= next = .error ⟨notInputMessage type.typeName, []⟩ := by
    rw [Registry.inputType_eq_error resolved notInput]
    rfl
  cases input with
  | json json =>
      rw [read]
      cases json with
      | null => cases single.notNull
      | array items => cases single.notList
      | bool | number | string | object =>
          rw [Registry.coerceValue]
          exact InputReader.throughWrappers_fails (fun type => bare type) resolved
  | literal literal =>
      rw [read]
      cases literal with
      | null => cases single.notNull
      | list items => cases single.notList
      | «variable» name => exact absurd rfl (single.notVariable name)
      | int | float | string | boolean | enum | object =>
          rw [Registry.coerceLiteral]
          exact InputReader.throughWrappers_fails (fun type => bare type) resolved

end RawInput

/-! ## Registries that were built -/

namespace Registry

/-- Whatever is coerced at a reference, its type is not blamed. -/
def SparesType (registry : Registry) (type : TypeRef) : Prop :=
  ∀ (values? : Option Variables) (input : RawInput) error,
    input.read registry values? type = .error error →
      ∀ name, error.message ≠ unknownTypeMessage name ∧ error.message ≠ notInputMessage name

/-- The definitions of arguments of fields, the introspection fields among them, and of input
fields. -/
inductive Asks (registry : Registry) (definition : InputValueDefinition) : Prop
  | argument {type : NamedType} {fields : List FieldDefinition} {field : FieldDefinition}
      (listed : type ∈ registry.types) (isFields : type.fields? = some fields)
      (isField : field ∈ fields) (isArgument : definition ∈ field.arguments)
  | selected {parent : NamedType} {name : String} {field : FieldDefinition}
      (listed : parent ∈ registry.types) (isField : registry.field? parent name = some field)
      (isArgument : definition ∈ field.arguments)
  | inputField {type : NamedType} {fields : List InputValueDefinition}
      (listed : type ∈ registry.types) (isFields : type.inputFields? = some fields)
      (isField : definition ∈ fields)

variable {registry : Registry}

private theorem spares_iff_isInput (nested : registry.InputsNested) {type : TypeRef}
    {named : NamedType} (resolved : registry.resolve? type = some named) :
    registry.SparesType type ↔ registry.isInput type = true := by
  rw [isInput, resolved, Option.any_some]
  constructor
  · intro spares
    by_contra notInput
    have single : (RawInput.json (.bool true)).IsSingle := ⟨rfl, rfl, nofun⟩
    have failed := RawInput.read_notInput (Bool.eq_false_iff.mpr notInput) none single resolved
    exact (spares none _ _ failed type.typeName).2 rfl
  · intro isInput values? input error failed name
    have spares := input.read_spares nested values? named type resolved error failed
    exact ⟨spares.known name, spares.input isInput name⟩

end Registry

namespace Schema.Yields

variable {schema : Schema} {registry : Registry}

private theorem isInput_of_inputProblem? {types : List NamedType} {type : TypeRef}
    {coordinate : String} (sound : inputProblem? types type coordinate = none) :
    (Named.find? types type.typeName).any NamedType.isInput = true := by
  rw [inputProblem?] at sound
  split at sound
  · assumption
  · cases sound

private theorem isInput_inputField (yields : schema.Yields registry) : registry.InputsNested := by
  intro type listed fields isFields field isField
  have sound := yields.checked type listed
  rw [Option.mem_def, NamedType.inputFields?] at isFields
  split at isFields
  · rename_i isObject
    cases isFields
    rw [typeProblem?, isObject] at sound
    exact isInput_of_inputProblem? (List.findSome?_eq_none_iff.mp sound field isField)
  · cases isFields

private theorem isInput_argument (yields : schema.Yields registry) {type : NamedType}
    (listed : type ∈ registry.types) {fields : List FieldDefinition}
    (isFields : type.fields? = some fields) {field : FieldDefinition} (isField : field ∈ fields)
    {argument : InputValueDefinition} (isArgument : argument ∈ field.arguments) :
    registry.isInput argument.type = true := by
  have sound := yields.checked type listed
  have checked : fieldProblem? registry.types type.name field = none := by
    rw [typeProblem?] at sound
    rw [NamedType.fields?] at isFields
    split at isFields
    · rename_i isObject
      cases isFields
      simp only [isObject] at sound
      exact List.findSome?_eq_none_iff.mp (Option.or_eq_none_iff.mp sound).2 field isField
    · rename_i isInterface
      cases isFields
      simp only [isInterface] at sound
      exact List.findSome?_eq_none_iff.mp (Option.or_eq_none_iff.mp sound).2 field isField
    · cases isFields
  rw [fieldProblem?] at checked
  split at checked
  · exact isInput_of_inputProblem? (List.findSome?_eq_none_iff.mp checked argument isArgument)
  · cases checked

private theorem isInput_of_asks (yields : schema.Yields registry)
    {definition : InputValueDefinition}
    (asks : registry.Asks definition) : registry.isInput definition.type = true := by
  cases asks with
  | argument listed isFields isField isArgument =>
      exact yields.isInput_argument listed isFields isField isArgument
  | inputField listed isFields isField =>
      exact yields.isInput_inputField _ listed _ isFields _ isField
  | selected listed isField isArgument =>
      rw [Registry.field?] at isField
      split at isField
      · cases isField
        cases isArgument
      · split at isField
        · cases isField
          cases isArgument
        · split at isField
          · -- The only argument of introspection fields is the name of a type.
            cases isField
            cases List.mem_singleton.mp isArgument
            have isString : Scalar.all[0] ∈ Scalar.all ++ Meta.all :=
              List.mem_append_left _ (List.getElem_mem _)
            have found : registry.lookup? "String" = _ := yields.lookup_builtIn isString
            rw [Registry.isInput, Registry.resolve?]
            exact congrArg _ found
          · rcases Option.bind_eq_some_iff.mp isField with ⟨fields, isFields, found⟩
            exact yields.isInput_argument listed isFields (Named.find?_mem found).1 isArgument

end Schema.Yields

/-- Coercion at the types of field arguments and input fields finds fault with inputs only. So it
does at the types of directive arguments that are for inputs. The build lets others through: their
types are known, but no single value is coerced at them. -/
theorem coercion_spares_types (schema : Schema) (registry : Registry)
    (built : schema.build = .ok registry) :
    (∀ definition, registry.Asks definition → registry.SparesType definition.type) ∧
    ∀ directive ∈ registry.directives, ∀ argument ∈ directive.arguments,
      (∀ (values? : Option Variables) (input : RawInput) error,
        input.read registry values? argument.type = .error error →
          ∀ name, error.message ≠ unknownTypeMessage name) ∧
      (registry.SparesType argument.type ↔ registry.isInput argument.type = true) ∧
      (registry.isInput argument.type = false →
        ∀ (values? : Option Variables) (input : RawInput), input.IsSingle →
          input.read registry values? argument.type =
            .error ⟨notInputMessage argument.type.typeName, []⟩) := by
  have yields := Schema.build_yields built
  have nested := yields.isInput_inputField
  refine ⟨?_, ?_⟩
  · intro definition asks
    have isInput := yields.isInput_of_asks asks
    rcases Registry.resolve?_of_isInput isInput with ⟨named, resolved, _⟩
    exact (Registry.spares_iff_isInput nested resolved).mpr isInput
  · intro directive listed argument isArgument
    rcases (Schema.build_closed built).arguments directive listed argument isArgument with
      ⟨named, resolved⟩
    refine ⟨?_, Registry.spares_iff_isInput nested resolved, ?_⟩
    · intro values? input error failed
      exact (input.read_spares nested values? named argument.type resolved error failed).known
    · intro notInput values? input single
      rw [Registry.isInput, resolved] at notInput
      exact RawInput.read_notInput notInput values? single resolved

namespace Postcard

/-! Postcards are sent with a text, and a directive is to seal them with a stamp, which is an object
type. -/

def stamp : NamedType where
  key := .custom 0
  name := "Stamp"
  shape := .object { fields := [{ name := "price", type := .named "Int" }] }

def text : InputValueDefinition := { name := "text", type := .nonNull (.named "String") }

def send : FieldDefinition where
  name := "send"
  type := .named "Boolean"
  arguments := [text]

def query : NamedType where
  key := .custom 1
  name := "Query"
  shape := .object { fields := [send] }

def wanted : InputValueDefinition := { name := "with", type := .direct stamp.toInstance }

def sealed : DirectiveDefinition where
  name := "sealed"
  locations := [.field]
  arguments := [wanted]

def schema : Schema where
  pool := [stamp, query]
  query := query.toInstance
  directives := [sealed]

def registry : Registry where
  types := Scalar.all ++ Meta.all ++ [query, stamp]
  query := query
  mutation := none
  subscription := none
  directives := DirectiveDefinition.builtIn ++ [sealed]
  possibleTypes := []

private theorem built : schema.build = .ok registry := rfl

private theorem asks_text : registry.Asks text := by
  have known : query ∈ registry.types := by simp [registry]
  exact .argument known rfl List.mem_cons_self List.mem_cons_self

end Postcard

/-- The schema is built, and then nothing seals a postcard. -/
theorem coercion_spares_types_of_postcard :
    Postcard.schema.build = .ok Postcard.registry ∧
      Postcard.registry.SparesType (.nonNull (.named "String")) ∧
      ¬Postcard.registry.SparesType (.direct Postcard.stamp.toInstance) ∧
      Postcard.registry.coerceLiteral none (.int 1) (.direct Postcard.stamp.toInstance) =
        .error ⟨"Type \"Stamp\" is not an input type.", []⟩ := by
  rcases coercion_spares_types Postcard.schema Postcard.registry Postcard.built with
    ⟨spared, directives⟩
  have ofWanted := directives Postcard.sealed (List.mem_append_right _ List.mem_cons_self)
    Postcard.wanted List.mem_cons_self
  have notInput : Postcard.registry.isInput Postcard.wanted.type = false := rfl
  refine ⟨Postcard.built, spared Postcard.text Postcard.asks_text, ?_, ?_⟩
  · rw [← Bool.not_eq_true] at notInput
    exact fun spares => notInput (ofWanted.2.1.mp spares)
  · exact ofWanted.2.2 notInput none (.literal (.int 1)) ⟨rfl, rfl, nofun⟩

end GraphQL
