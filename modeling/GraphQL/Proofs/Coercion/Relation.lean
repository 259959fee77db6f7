import GraphQL.Proofs.Coercion.Variables
import Mathlib.Data.List.Forall2

/-!
What inputs coerce to, as a relation between types, inputs and values. JSON values and literals
without variables are coerced by functions of their own; both are the same relation.
-/

namespace GraphQL

/-- Induction over JSON values, with the items of an array and the fields of an object at hand. -/
theorem Json.induct {motive : Json → Prop} (null : motive .null)
    (bool : ∀ value, motive (.bool value)) (number : ∀ value, motive (.number value))
    (string : ∀ value, motive (.string value))
    (array : ∀ items, (∀ item ∈ items, motive item) → motive (.array items))
    (object : ∀ fields, (∀ field ∈ fields, motive field.2) → motive (.object fields)) :
    ∀ json, motive json :=
  @Json.rec motive (fun items => ∀ item ∈ items, motive item)
    (fun fields => ∀ field ∈ fields, motive field.2) (fun field => motive field.2) null bool number
    string array object (fun _ member => by cases member)
    (fun _ _ head tail => List.forall_mem_cons.mpr ⟨head, tail⟩) (fun _ member => by cases member)
    (fun _ _ head tail => List.forall_mem_cons.mpr ⟨head, tail⟩) (fun _ _ value => value)

/-- No wrappers are around the type. -/
def TypeRef.isBare : TypeRef → Bool
  | .list _ => false
  | .nonNull _ => false
  | _ => true

/-! ## Inputs -/

/-- What is coerced: a JSON value, or a literal. -/
inductive RawInput where
  | json (value : Json)
  | literal (value : Literal)

namespace RawInput

/-- No variable occurs in the input. -/
def IsFree : RawInput → Prop
  | .json _ => True
  | .literal value => value.variableNames = []

def isNull : RawInput → Bool
  | .json value => value.isNull
  | .literal value => value.isNull

def items? : RawInput → Option (List RawInput)
  | .json (.array items) => some (items.map .json)
  | .literal (.list items) => some (items.map .literal)
  | _ => none

def fields? : RawInput → Option (List (String × RawInput))
  | .json (.object fields) => some (fields.map fun field => (field.1, .json field.2))
  | .literal (.object fields) => some (fields.map fun field => (field.1, .literal field.2))
  | _ => none

/-- The enum value that is meant: JSON has a string for it, and literals have a name. -/
def enumName? : RawInput → Option String
  | .json (.string name) => some name
  | .literal (.enum name) => some name
  | _ => none

def parse (scalar : ScalarShape) : RawInput → Except String Json
  | .json value => scalar.parseValue value
  | .literal value => scalar.parseLiteral value

def read (registry : Registry) (values? : Option Variables) : RawInput → InputReader
  | .json value => registry.coerceValue value
  | .literal value => registry.coerceLiteral values? value

end RawInput

/-! ## The relation -/

namespace Registry

mutual

/-- An input is coerced to a value at a type. -/
inductive Coerces (registry : Registry) : TypeRef → RawInput → Json → Prop
  | null {type : TypeRef} {input : RawInput} (isNull : input.isNull = true)
      (mayBeNull : type.isNonNull = false) : Coerces registry type input .null
  | nonNull {inner : TypeRef} {input : RawInput} {value : Json} (notNull : input.isNull = false)
      (inside : Coerces registry inner input value) : Coerces registry (.nonNull inner) input value
  | list {item : TypeRef} {input : RawInput} {items : List RawInput} {values : List Json}
      (isList : input.items? = some items) (each : CoercesItems registry item items values) :
      Coerces registry (.list item) input (.array values)
  /-- A single value stands for the list of it. -/
  | single {item : TypeRef} {input : RawInput} {value : Json} (notNull : input.isNull = false)
      (notList : input.items? = none) (inside : Coerces registry item input value) :
      Coerces registry (.list item) input (.array [value])
  | scalar {type : TypeRef} {input : RawInput} {named : NamedType} {shape : ScalarShape}
      {value : Json} (isBare : type.isBare = true) (notNull : input.isNull = false)
      (resolved : registry.resolve? type = some named) (isScalar : named.shape = .scalar shape)
      (parsed : input.parse shape = .ok value) : Coerces registry type input value
  | enum {type : TypeRef} {input : RawInput} {named : NamedType}
      {values : List EnumValueDefinition} {name : String} {value : Json}
      (isBare : type.isBare = true) (resolved : registry.resolve? type = some named)
      (isEnum : named.shape = .enum values) (isName : input.enumName? = some name)
      (declared : EnumValueDefinition.parseName? values name = some value) :
      Coerces registry type input value
  | object {type : TypeRef} {input : RawInput} {named : NamedType}
      {definitions : List InputValueDefinition} {fields : List (String × RawInput)}
      {entries : List (String × Json)} (isBare : type.isBare = true)
      (resolved : registry.resolve? type = some named)
      (isObject : named.shape = .inputObject definitions) (isFields : input.fields? = some fields)
      (known : ∀ name ∈ Named.names fields, Named.contains definitions name = true)
      (each : CoercesFields registry fields definitions entries) :
      Coerces registry type input (.object entries)

/-- Items are coerced one by one. -/
inductive CoercesItems (registry : Registry) : TypeRef → List RawInput → List Json → Prop
  | nil {item : TypeRef} : CoercesItems registry item [] []
  | cons {item : TypeRef} {input : RawInput} {inputs : List RawInput} {value : Json}
      {values : List Json} (head : Coerces registry item input value)
      (tail : CoercesItems registry item inputs values) :
      CoercesItems registry item (input :: inputs) (value :: values)

/-- The fields of an object are coerced in the order of their definitions: those that are given,
and the defaults of others. What is neither given nor has a default is left out. -/
inductive CoercesFields (registry : Registry) :
    List (String × RawInput) → List InputValueDefinition → List (String × Json) → Prop
  | nil {fields : List (String × RawInput)} : CoercesFields registry fields [] []
  | given {fields : List (String × RawInput)} {definition : InputValueDefinition}
      {definitions : List InputValueDefinition} {input : RawInput} {value : Json}
      {entries : List (String × Json)} (isGiven : Named.value? fields definition.name = some input)
      (coerced : Coerces registry definition.type input value)
      (later : CoercesFields registry fields definitions entries) :
      CoercesFields registry fields (definition :: definitions) ((definition.name, value) :: entries)
  | default {fields : List (String × RawInput)} {definition : InputValueDefinition}
      {definitions : List InputValueDefinition} {value : Json} {entries : List (String × Json)}
      (absent : Named.value? fields definition.name = none)
      (isDefault : definition.default = some value)
      (later : CoercesFields registry fields definitions entries) :
      CoercesFields registry fields (definition :: definitions) ((definition.name, value) :: entries)
  | leftOut {fields : List (String × RawInput)} {definition : InputValueDefinition}
      {definitions : List InputValueDefinition} {entries : List (String × Json)}
      (absent : Named.value? fields definition.name = none) (noDefault : definition.default = none)
      (mayBeNull : definition.type.isNonNull = false)
      (later : CoercesFields registry fields definitions entries) :
      CoercesFields registry fields (definition :: definitions) entries

end

end Registry

/-! ## Types without wrappers -/

/-- What a type without wrappers makes of an input, with the names of its fields and the readers of
them if it is an object. -/
def NamedType.Takes (named : NamedType) (input : RawInput)
    (fields? : Option (List String × List (String × InputReader))) (value : Json) : Prop :=
  match named.shape with
  | .scalar shape => input.parse shape = .ok value
  | .enum values => input.enumName?.bind (EnumValueDefinition.parseName? values) = some value
  | .inputObject definitions =>
      ∃ fields, fields? = some fields ∧
        InputObject.read named.name definitions fields.1 fields.2 = .ok value
  | _ => False

namespace Registry

variable {registry : Registry}

section

variable {type : TypeRef} {named : NamedType} {definitions : List InputValueDefinition}

private theorem inputType_of_object (resolved : registry.resolve? type = some named)
    (isObject : named.shape = .inputObject definitions) : registry.inputType type = .ok named :=
  inputType_eq_ok.mpr ⟨resolved, by rw [NamedType.isInput, isObject]⟩

theorem valueAtNamed_object {value : Json} {readers : List (String × InputReader)}
    (resolved : registry.resolve? type = some named)
    (isObject : named.shape = .inputObject definitions) :
    registry.valueAtNamed value (some readers) type =
      InputObject.read named.name definitions (Named.names readers) readers := by
  have isInput := inputType_of_object resolved isObject
  simp only [valueAtNamed, isInput, bind, Except.bind, isObject]

theorem literalAtNamed_object {literal : Literal} {names : List String}
    {readers : List (String × InputReader)} (resolved : registry.resolve? type = some named)
    (isObject : named.shape = .inputObject definitions) :
    registry.literalAtNamed literal (some (names, readers)) type =
      InputObject.read named.name definitions names readers := by
  have isInput := inputType_of_object resolved isObject
  simp only [literalAtNamed, isInput, bind, Except.bind, isObject]

end

private theorem valueAtNamed_eq_ok {json value : Json}
    {readers? : Option (List (String × InputReader))} {type : TypeRef} :
    registry.valueAtNamed json readers? type = .ok value ↔
      ∃ named, registry.resolve? type = some named ∧
        named.Takes (.json json) (readers?.map fun readers => (Named.names readers, readers))
          value := by
  rw [valueAtNamed, bind_eq_ok_iff]
  refine exists_congr fun named => ?_
  rw [inputType_eq_ok, and_assoc, NamedType.isInput, NamedType.Takes]
  refine and_congr_right fun _ => ?_
  cases named.shape with
  | scalar shape =>
      rw [eq_self_iff_true, true_and]
      exact mapError_eq_ok
  | enum values =>
      have sameName : (RawInput.json json).enumName? = json.asString? := by cases json <;> rfl
      simp only [sameName]
      cases json.asString?.bind (EnumValueDefinition.parseName? values) <;> simp
  | inputObject definitions => cases readers? <;> simp
  | object | interface | union => simp

theorem literalAtNamed_eq_ok {literal : Literal} {value : Json}
    {fields? : Option (List String × List (String × InputReader))} {type : TypeRef} :
    registry.literalAtNamed literal fields? type = .ok value ↔
      ∃ named, registry.resolve? type = some named ∧
        named.Takes (.literal literal) fields? value := by
  rw [literalAtNamed, bind_eq_ok_iff]
  refine exists_congr fun named => ?_
  rw [inputType_eq_ok, and_assoc, NamedType.isInput, NamedType.Takes]
  refine and_congr_right fun _ => ?_
  cases named.shape with
  | scalar shape =>
      rw [eq_self_iff_true, true_and]
      exact mapError_eq_ok
  | enum values =>
      cases literal with
      | enum name =>
          simp only [RawInput.enumName?, Option.bind_some]
          cases EnumValueDefinition.parseName? values name <;> simp
      | _ => simp [RawInput.enumName?]
  | inputObject definitions => cases fields? <;> simp
  | object | interface | union => simp

end Registry

namespace RawInput

/-- The names of the fields of an object, and their readers. -/
def readers? (registry : Registry) (values? : Option Variables) (input : RawInput) :
    Option (List String × List (String × InputReader)) :=
  input.fields?.map fun fields =>
    (Named.names fields, fields.map fun field => (field.1, field.2.read registry values?))

/-- Readers read what the inputs coerce to. -/
private def Reads (registry : Registry) (values? : Option Variables) (input : RawInput) : Prop :=
  ∀ type value, input.read registry values? type = .ok value ↔ registry.Coerces type input value

variable {registry : Registry} {values? : Option Variables} {input : RawInput}

private theorem items?_of_isNull (isNull : input.isNull = true) : input.items? = none := by
  cases input with
  | json value =>
      rw [Json.eq_null isNull]
      rfl
  | literal value =>
      rw [Literal.eq_null isNull]
      rfl

private theorem fields?_of_isNull (isNull : input.isNull = true) : input.fields? = none := by
  cases input with
  | json value =>
      rw [Json.eq_null isNull]
      rfl
  | literal value =>
      rw [Literal.eq_null isNull]
      rfl

private theorem enumName?_of_isNull (isNull : input.isNull = true) : input.enumName? = none := by
  cases input with
  | json value =>
      rw [Json.eq_null isNull]
      rfl
  | literal value =>
      rw [Literal.eq_null isNull]
      rfl

end RawInput

namespace Registry

variable {registry : Registry} {values? : Option Variables} {input : RawInput}

/-! ## Items and fields -/

/-- At a bare type only null is coerced from null. -/
theorem Coerces.eq_null {type : TypeRef} {value : Json} (isNull : input.isNull = true)
    (coerces : registry.Coerces type input value) :
    value = .null ∧ type.isNonNull = false := by
  cases coerces with
  | null _ mayBeNull => exact ⟨rfl, mayBeNull⟩
  | nonNull notNull | single notNull | scalar _ notNull =>
      rw [isNull] at notNull
      cases notNull
  | list isList =>
      rw [RawInput.items?_of_isNull isNull] at isList
      cases isList
  | enum _ _ _ isName =>
      rw [RawInput.enumName?_of_isNull isNull] at isName
      cases isName
  | object _ _ _ isFields =>
      rw [RawInput.fields?_of_isNull isNull] at isFields
      cases isFields

theorem coerces_nonNull {inner : TypeRef} {value : Json} (notNull : input.isNull = false) :
    registry.Coerces (.nonNull inner) input value ↔ registry.Coerces inner input value := by
  refine ⟨fun coerces => ?_, .nonNull notNull⟩
  cases coerces with
  | null _ mayBeNull => cases mayBeNull
  | nonNull _ inside => exact inside
  | scalar isBare | enum isBare | object isBare => cases isBare

theorem coerces_single {item : TypeRef} {value : Json} (notNull : input.isNull = false)
    (notList : input.items? = none) :
    registry.Coerces (.list item) input value ↔
      ∃ only, registry.Coerces item input only ∧ .array [only] = value := by
  constructor
  · intro coerces
    cases coerces with
    | null isNull =>
        rw [notNull] at isNull
        cases isNull
    | list isList =>
        rw [notList] at isList
        cases isList
    | single _ _ inside => exact ⟨_, inside, rfl⟩
    | scalar isBare | enum isBare | object isBare => cases isBare
  · rintro ⟨only, inside, rfl⟩
    exact .single notNull notList inside

theorem coerces_list {item : TypeRef} {inputs : List RawInput} {value : Json}
    (isList : input.items? = some inputs) :
    registry.Coerces (.list item) input value ↔
      ∃ values, registry.CoercesItems item inputs values ∧ .array values = value := by
  constructor
  · intro coerces
    cases coerces with
    | null isNull =>
        rw [RawInput.items?_of_isNull isNull] at isList
        cases isList
    | list isItems each =>
        rw [isList] at isItems
        cases isItems
        exact ⟨_, each, rfl⟩
    | single _ notList =>
        rw [isList] at notList
        cases notList
    | scalar isBare | enum isBare | object isBare => cases isBare
  · rintro ⟨values, each, rfl⟩
    exact .list isList each

private theorem coercesItems_iff {item : TypeRef} {inputs : List RawInput} {values : List Json} :
    registry.CoercesItems item inputs values ↔
      List.Forall₂ (registry.Coerces item) inputs values := by
  induction inputs generalizing values with
  | nil =>
      rw [List.forall₂_nil_left_iff]
      constructor
      · intro coerces
        cases coerces
        rfl
      · rintro rfl
        exact .nil
  | cons head tail induction =>
      rw [List.forall₂_cons_left_iff]
      constructor
      · intro coerces
        cases coerces with
        | cons first rest => exact ⟨_, _, first, induction.mp rest, rfl⟩
      · rintro ⟨value, rest, first, later, rfl⟩
        exact .cons first (induction.mpr later)

end Registry

namespace Registry

variable {registry : Registry} {values? : Option Variables}

theorem coerceItems_eq (items : List Json) (index : Nat) (type : TypeRef) :
    registry.coerceItems items index type =
      InputReader.readItems (items.map registry.coerceValue) index type := by
  induction items generalizing index with
  | nil => rfl
  | cons head tail induction =>
      rw [coerceItems, induction]
      rfl

private theorem readItems_eq_ok {inputs : List RawInput} {type : TypeRef} {values : List Json}
    (each : ∀ input ∈ inputs, input.Reads registry values?) (index : Nat) :
    InputReader.readItems (inputs.map (RawInput.read registry values?)) index type = .ok values ↔
      registry.CoercesItems type inputs values := by
  rw [coercesItems_iff]
  induction inputs generalizing index values with
  | nil => simp [InputReader.readItems, eq_comm]
  | cons head tail induction =>
      have parts := List.forall_mem_cons.mp each
      rw [List.map_cons, InputReader.readItems, both_eq_ok, List.forall₂_cons_left_iff]
      refine exists_congr fun value => exists_congr fun rest => ?_
      rw [InputReader.under, mapError_eq_ok, induction parts.2, eq_comm (a := values)]
      exact and_congr_left' (parts.1 type value)

theorem fieldReaders_eq (fields : List (String × Json)) :
    registry.fieldReaders fields =
      fields.map fun field => (field.1, registry.coerceValue field.2) := by
  induction fields with
  | nil => rfl
  | cons head tail induction =>
      rw [fieldReaders, induction]
      rfl

theorem literalReaders_eq {fields : List (String × Literal)}
    (present : ∀ field ∈ fields, field.2.isAbsent values? = false) :
    registry.literalReaders values? fields =
      fields.map fun field => (field.1, registry.coerceLiteral values? field.2) := by
  induction fields with
  | nil => rfl
  | cons head tail induction =>
      have parts := List.forall_mem_cons.mp present
      rw [literalReaders, parts.1, induction parts.2]
      rfl

/-- What is absent has its default, or no entry if it has none and may be null. -/
private theorem absentEntry_eq_ok {owner : String} {definition : InputValueDefinition}
    {entry : List (String × Json)} :
    definition.absentEntry owner = .ok entry ↔
      (∃ value, definition.default = some value ∧ entry = [(definition.name, value)]) ∨
        definition.default = none ∧ definition.type.isNonNull = false ∧ entry = [] := by
  rw [InputValueDefinition.absentEntry]
  cases definition.default with
  | some value =>
      constructor
      · rintro ⟨⟩
        exact .inl ⟨value, rfl, rfl⟩
      · rintro (⟨_, ⟨⟩, rfl⟩ | ⟨⟨⟩, _⟩)
        rfl
  | none =>
      cases definition.type.isNonNull with
      | true => simp
      | false =>
          constructor
          · rintro ⟨⟩
            exact .inr ⟨rfl, rfl, rfl⟩
          · rintro (⟨_, ⟨⟩, _⟩ | ⟨_, _, rfl⟩)
            rfl

/-- What an object type reads of fields is what they coerce to. -/
private theorem entries_eq_ok {owner : String} {fields : List (String × RawInput)}
    {definitions : List InputValueDefinition} {entries : List (String × Json)}
    (each : ∀ field ∈ fields, field.2.Reads registry values?) :
    InputObject.entries owner (fields.map fun field => (field.1, field.2.read registry values?))
        definitions = .ok entries ↔
      registry.CoercesFields fields definitions entries := by
  induction definitions generalizing entries with
  | nil =>
      rw [InputObject.entries, Except.ok.injEq]
      constructor
      · rintro rfl
        exact .nil
      · intro coerces
        cases coerces
        rfl
  | cons definition definitions induction =>
      have found := Named.value?_map (fun _ input => input.read registry values?) fields
        definition.name
      rw [InputObject.entries, found]
      cases written : Named.value? fields definition.name with
      | some input =>
          have reads := each _ (Named.value?_mem written) definition.type
          constructor
          · intro isOk
            rcases bind_eq_ok_iff.mp isOk with ⟨value, isValue, isOk⟩
            rcases bind_eq_ok_iff.mp isOk with ⟨entry, isEntry, isOk⟩
            cases isEntry
            rcases bind_eq_ok_iff.mp isOk with ⟨rest, isRest, isEntries⟩
            cases isEntries
            exact .given written ((reads value).mp (mapError_eq_ok.mp isValue))
              (induction.mp isRest)
          · intro coerces
            cases coerces with
            | given isGiven coerced later =>
                rw [written] at isGiven
                cases isGiven
                exact bind_eq_ok_iff.mpr ⟨_, mapError_eq_ok.mpr ((reads _).mpr coerced),
                  bind_eq_ok_iff.mpr ⟨_, rfl, bind_eq_ok_iff.mpr ⟨_, induction.mpr later, rfl⟩⟩⟩
            | default absent | leftOut absent =>
                rw [written] at absent
                cases absent
      | none =>
          constructor
          · intro isOk
            rcases bind_eq_ok_iff.mp isOk with ⟨entry, isEntry, isOk⟩
            rcases bind_eq_ok_iff.mp isOk with ⟨rest, isRest, isEntries⟩
            cases isEntries
            rcases absentEntry_eq_ok.mp isEntry with ⟨value, isDefault, rfl⟩ |
              ⟨noDefault, mayBeNull, rfl⟩
            · exact .default written isDefault (induction.mp isRest)
            · exact .leftOut written noDefault mayBeNull (induction.mp isRest)
          · intro coerces
            cases coerces with
            | given isGiven =>
                rw [written] at isGiven
                cases isGiven
            | default absent isDefault later =>
                exact bind_eq_ok_iff.mpr ⟨_, absentEntry_eq_ok.mpr (.inl ⟨_, isDefault, rfl⟩),
                  bind_eq_ok_iff.mpr ⟨_, induction.mpr later, rfl⟩⟩
            | leftOut absent noDefault mayBeNull later =>
                exact bind_eq_ok_iff.mpr
                  ⟨_, absentEntry_eq_ok.mpr (.inr ⟨noDefault, mayBeNull, rfl⟩),
                    bind_eq_ok_iff.mpr ⟨_, induction.mpr later, rfl⟩⟩

end Registry

/-! ## Reading -/

private theorem InputReader.throughWrappers_of_null (refusal : TypeRef → String)
    (leaf other : InputReader) :
    throughWrappers true refusal none leaf = throughWrappers true refusal none other := by
  funext type
  cases type <;> rfl

/-- At a type without lists the wrappers only ask whether null will do. -/
theorem InputReader.throughWrappers_of_bare {type : TypeRef} {value : Json} {isNull : Bool}
    {refusal : TypeRef → String} {items? : Option InputReader} {leaf : InputReader}
    (bare : type.nullable.isBare = true) :
    throughWrappers isNull refusal items? leaf type = .ok value ↔
      if isNull then type.isNonNull = false ∧ .null = value
      else leaf type.nullable = .ok value := by
  cases type with
  | nonNull inner =>
      cases inner with
      | list | nonNull => cases bare
      | named | direct | deferred =>
          cases isNull <;> simp [throughWrappers, TypeRef.nullable, TypeRef.isNonNull]
  | list => cases bare
  | named | direct | deferred =>
      cases isNull <;> simp [throughWrappers, TypeRef.nullable, TypeRef.isNonNull]

namespace RawInput

variable {registry : Registry} {values? : Option Variables} {input : RawInput}

/-- A reader of the items of an input, if it is a list. -/
def itemsReader? (registry : Registry) (values? : Option Variables) (input : RawInput) :
    Option InputReader :=
  input.items?.map fun items type =>
    (InputReader.readItems (items.map (read registry values?)) 0 type).map .array

theorem items_of_free {items : List Literal} (free : Literal.itemVariables items = []) :
    ∀ item ∈ items, item.variableNames = [] := by
  rwa [Literal.itemVariables_eq, List.flatMap_eq_nil_iff] at free

theorem fields_of_free {fields : List (String × Literal)}
    (free : Literal.fieldVariables fields = []) :
    ∀ field ∈ fields, field.2.variableNames = [] := by
  rwa [Literal.fieldVariables_eq, List.flatMap_eq_nil_iff] at free

private theorem isAbsent_of_free {literal : Literal} (free : literal.variableNames = []) :
    literal.isAbsent values? = false := by
  cases literal with
  | «variable» name => cases free
  | _ => rfl

theorem read_json (registry : Registry) (values? : Option Variables) (json : Json) :
    ∃ leaf : InputReader,
    registry.coerceValue json =
        InputReader.throughWrappers json.isNull Registry.nullValueRefusal
          ((RawInput.json json).itemsReader? registry values?) leaf ∧
      ∀ type value, leaf type = .ok value ↔ ∃ named, registry.resolve? type = some named ∧
        named.Takes (.json json) ((RawInput.json json).readers? registry values?) value := by
  cases json with
  | null =>
      refine ⟨registry.valueAtNamed .null none, ?_, fun _ _ => Registry.valueAtNamed_eq_ok⟩
      rw [Registry.coerceValue]
      exact InputReader.throughWrappers_of_null _ _ _
  | array items =>
      refine ⟨registry.valueAtNamed (.array items) none, ?_,
        fun _ _ => Registry.valueAtNamed_eq_ok⟩
      simp only [Registry.coerceValue, Registry.coerceItems_eq]
      simp [itemsReader?, items?, List.map_map, Function.comp_def, read, Json.isNull]
  | object fields =>
      refine ⟨registry.valueAtNamed (.object fields) (some (registry.fieldReaders fields)), ?_,
        fun type value => Registry.valueAtNamed_eq_ok.trans ?_⟩
      · rw [Registry.coerceValue]
        rfl
      · rw [Registry.fieldReaders_eq]
        simp [readers?, fields?, Named.names, List.map_map, Function.comp_def, read, nameOf]
  | bool | number | string =>
      refine ⟨registry.valueAtNamed _ none, ?_, fun _ _ => Registry.valueAtNamed_eq_ok⟩
      rw [Registry.coerceValue]
      rfl

private theorem read_literal (registry : Registry) (values? : Option Variables) (literal : Literal)
    (free : literal.variableNames = []) :
    ∃ leaf : InputReader,
      registry.coerceLiteral values? literal =
          InputReader.throughWrappers literal.isNull Registry.nullLiteralRefusal
            ((RawInput.literal literal).itemsReader? registry values?) leaf ∧
        ∀ type value, leaf type = .ok value ↔ ∃ named, registry.resolve? type = some named ∧
          named.Takes (.literal literal) ((RawInput.literal literal).readers? registry values?)
            value := by
  cases literal with
  | «variable» name => cases free
  | null =>
      refine ⟨registry.literalAtNamed .null none, ?_, fun _ _ => Registry.literalAtNamed_eq_ok⟩
      rw [Registry.coerceLiteral]
      exact InputReader.throughWrappers_of_null _ _ _
  | list items =>
      refine ⟨registry.literalAtNamed (.list items) none, ?_,
        fun _ _ => Registry.literalAtNamed_eq_ok⟩
      simp only [Registry.coerceLiteral, Registry.coerceLiterals_eq]
      simp [itemsReader?, items?, List.map_map, Function.comp_def, read, Literal.isNull]
  | object fields =>
      refine ⟨registry.literalAtNamed (.object fields)
          (some (Named.names fields, registry.literalReaders values? fields)), ?_,
        fun type value => Registry.literalAtNamed_eq_ok.trans ?_⟩
      · rw [Registry.coerceLiteral]
        rfl
      · rw [Registry.literalReaders_eq fun field member =>
          isAbsent_of_free (fields_of_free free field member)]
        simp [readers?, fields?, Named.names, List.map_map, Function.comp_def, read, nameOf]
  | int | float | string | boolean | enum =>
      refine ⟨registry.literalAtNamed _ none, ?_, fun _ _ => Registry.literalAtNamed_eq_ok⟩
      rw [Registry.coerceLiteral]
      rfl

theorem read_object_eq_ok {owner : String} {definitions : List InputValueDefinition}
    {names : List String} {readers : List (String × InputReader)} {value : Json} :
    InputObject.read owner definitions names readers = .ok value ↔
      (∀ name ∈ names, Named.contains definitions name = true) ∧
        ∃ entries, InputObject.entries owner readers definitions = .ok entries ∧
          .object entries = value := by
  rw [← InputObject.unknownField?_eq_none, InputObject.read]
  split
  · rename_i name unknown
    simp only [unknown, reduceCtorEq, false_and]
  · rename_i allKnown
    rw [allKnown, bind_eq_ok_iff, eq_self, true_and]
    refine exists_congr fun entries => and_congr_right fun _ => ?_
    exact ⟨Except.ok.inj, congrArg _⟩

/-- At types without wrappers an input is coerced to what the named type takes. -/
private theorem takes_iff {type : TypeRef} {value : Json} (isBare : type.isBare = true)
    (notNull : input.isNull = false)
    (fields : ∀ fields, input.fields? = some fields →
      ∀ field ∈ fields, field.2.Reads registry values?) :
    (∃ named, registry.resolve? type = some named ∧
        named.Takes input (input.readers? registry values?) value) ↔
      registry.Coerces type input value := by
  constructor
  · rintro ⟨named, resolved, takes⟩
    rw [NamedType.Takes] at takes
    split at takes
    · rename_i scalar isScalar
      exact .scalar isBare notNull resolved isScalar takes
    · rename_i values isEnum
      rcases Option.bind_eq_some_iff.mp takes with ⟨name, isName, declared⟩
      exact .enum isBare resolved isEnum isName declared
    · rename_i definitions isObject
      rcases takes with ⟨readers, isReaders, isRead⟩
      rcases Option.map_eq_some_iff.mp isReaders with ⟨given, isFields, rfl⟩
      rcases read_object_eq_ok.mp isRead with ⟨known, entries, isEntries, rfl⟩
      exact .object isBare resolved isObject isFields known
        ((Registry.entries_eq_ok (fields given isFields)).mp isEntries)
    · cases takes
  · intro coerces
    cases coerces with
    | null isNull =>
        rw [notNull] at isNull
        cases isNull
    | nonNull | list | single => cases isBare
    | @scalar _ _ named scalar _ _ _ resolved isScalar parsed =>
        refine ⟨named, resolved, ?_⟩
        simp only [NamedType.Takes, isScalar]
        exact parsed
    | @enum _ _ named values name _ _ resolved isEnum isName declared =>
        refine ⟨named, resolved, ?_⟩
        simp only [NamedType.Takes, isEnum]
        exact Option.bind_eq_some_iff.mpr ⟨name, isName, declared⟩
    | @object _ _ named definitions given entries _ resolved isObject isFields known each =>
        refine ⟨named, resolved, ?_⟩
        simp only [NamedType.Takes, isObject, readers?, isFields]
        exact ⟨_, rfl, read_object_eq_ok.mpr ⟨known, entries,
          (Registry.entries_eq_ok (fields given isFields)).mpr each, rfl⟩⟩

/-- Inputs read what they coerce to if their items and fields do. -/
private theorem reads_of_parts {refusal : TypeRef → String} {leaf : InputReader}
    (isRead : input.read registry values? = InputReader.throughWrappers input.isNull refusal
      (input.itemsReader? registry values?) leaf)
    (leaves : ∀ type value, leaf type = .ok value ↔ ∃ named,
      registry.resolve? type = some named ∧
        named.Takes input (input.readers? registry values?) value)
    (items : ∀ items, input.items? = some items → ∀ item ∈ items, item.Reads registry values?)
    (fields : ∀ fields, input.fields? = some fields →
      ∀ field ∈ fields, field.2.Reads registry values?) : input.Reads registry values? := by
  have bare : ∀ type : TypeRef, type.isBare = true → type.isNonNull = false → ∀ value,
      (if input.isNull then .ok .null else leaf type) = .ok value ↔
        registry.Coerces type input value := by
    intro type isBare mayBeNull value
    cases isNull : input.isNull with
    | true =>
        rw [if_pos rfl, Except.ok.injEq]
        exact ⟨fun equal => equal ▸ .null isNull mayBeNull,
          fun coerces => (coerces.eq_null isNull).1.symm⟩
    | false =>
        rw [if_neg Bool.false_ne_true, leaves]
        exact takes_iff isBare isNull fields
  intro type
  rw [isRead]
  induction type with
  | named | direct | deferred => exact bare _ rfl rfl
  | nonNull inner induction =>
      intro value
      simp only [InputReader.throughWrappers]
      cases isNull : input.isNull with
      | true =>
          rw [if_pos rfl]
          simp only [reduceCtorEq, false_iff]
          intro coerces
          cases (coerces.eq_null isNull).2
      | false =>
          rw [isNull] at induction
          rw [if_neg Bool.false_ne_true, induction]
          exact (Registry.coerces_nonNull isNull).symm
  | list item induction =>
      intro value
      simp only [InputReader.throughWrappers]
      cases isNull : input.isNull with
      | true =>
          rw [if_pos rfl, Except.ok.injEq]
          exact ⟨fun equal => equal ▸ .null isNull rfl,
            fun coerces => (coerces.eq_null isNull).1.symm⟩
      | false =>
          rw [isNull, itemsReader?] at induction
          rw [if_neg Bool.false_ne_true, itemsReader?]
          cases isList : input.items? with
          | none =>
              rw [isList] at induction
              rw [Registry.coerces_single isNull isList]
              refine bind_eq_ok_iff.trans (exists_congr fun only => ?_)
              exact and_congr (induction only) ⟨Except.ok.inj, congrArg Except.ok⟩
          | some inputs =>
              rw [Registry.coerces_list isList]
              refine map_eq_ok.trans (exists_congr fun values => and_congr_left' ?_)
              exact Registry.readItems_eq_ok (items inputs isList) 0

theorem reads_json (values? : Option Variables) (json : Json) :
    (RawInput.json json).Reads registry values? := by
  induction json using Json.induct with
  | array inputs each =>
      rcases read_json registry values? (.array inputs) with
        ⟨leaf, isRead, leaves⟩
      refine reads_of_parts isRead leaves ?_ nofun
      rintro items isItems item listed
      cases isItems
      rcases List.mem_map.mp listed with ⟨value, member, rfl⟩
      exact each value member
  | object given each =>
      rcases read_json registry values? (.object given) with
        ⟨leaf, isRead, leaves⟩
      refine reads_of_parts isRead leaves nofun ?_
      rintro fields isFields field listed
      cases isFields
      rcases List.mem_map.mp listed with ⟨value, member, rfl⟩
      exact each value member
  | _ =>
      rcases read_json registry values? _ with ⟨leaf, isRead, leaves⟩
      exact reads_of_parts isRead leaves nofun nofun

theorem reads_literal (values? : Option Variables) (literal : Literal)
    (free : literal.variableNames = []) : (RawInput.literal literal).Reads registry values? := by
  induction literal using Literal.induct with
  | mentioned name => cases free
  | list inputs each =>
      rcases read_literal registry values? (.list inputs) free with
        ⟨leaf, isRead, leaves⟩
      refine reads_of_parts isRead leaves ?_ nofun
      rintro items isItems item listed
      cases isItems
      rcases List.mem_map.mp listed with ⟨value, member, rfl⟩
      exact each value member (items_of_free free value member)
  | object given each =>
      rcases read_literal registry values? (.object given) free with
        ⟨leaf, isRead, leaves⟩
      refine reads_of_parts isRead leaves nofun ?_
      rintro fields isFields field listed
      cases isFields
      rcases List.mem_map.mp listed with ⟨value, member, rfl⟩
      exact each value member (fields_of_free free value member)
  | _ =>
      rcases read_literal registry values? _ free with
        ⟨leaf, isRead, leaves⟩
      exact reads_of_parts isRead leaves nofun nofun

end RawInput

/-- Inputs without variables are coerced to just the values that the relation gives. -/
theorem RawInput.read_eq_ok {registry : Registry} {values? : Option Variables} {input : RawInput}
    (free : input.IsFree) {type : TypeRef} {value : Json} :
    input.read registry values? type = .ok value ↔ registry.Coerces type input value := by
  cases input with
  | json json => exact reads_json values? json type value
  | literal literal => exact reads_literal values? literal free type value

end GraphQL
