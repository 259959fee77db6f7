import GraphQL.Proofs.Coercion.Relation
import GraphQL.Proofs.Schema.Registration
import GraphQL.Proofs.Schema.Scalars
import GraphQL.Schema.Description
import Mathlib.Algebra.Group.Int.Defs

/-!
Coerced values conform to the types that they are coerced to. Values are taken on trust in three
places only: defaults are used as they are, enum values stand for what the schema says, and scalars
of the application may make anything of an input.
-/

namespace GraphQL

/-! ## What scalars make of inputs -/

namespace Scalar

/-- Parsing makes null of no input without variables but null. -/
def ParsesValues (scalar : ScalarShape) : Prop :=
  ∀ input : RawInput, input.IsFree → input.isNull = false → ∀ value,
    input.parse scalar = .ok value → value.isNull = false

private theorem int32?_fits {number : Number} {value : Int} (isInt : int32? number = some value) :
    fitsInt32 value = true := by
  cases number with
  | int given =>
      rw [int32?] at isInt
      split at isInt
      · rename_i fits
        cases isInt
        exact fits
      · cases isInt
  | float given => exact (Option.filter_eq_some_iff.mp isInt).2

/-- The built-in integers are parsed to integers of 32 bits. -/
theorem int_parse {input : RawInput} {value : Json} (parsed : input.parse int = .ok value) :
    ∃ number : Int, value = .int number ∧ fitsInt32 number = true := by
  cases input with
  | json json =>
      cases json with
      | number number =>
          simp only [RawInput.parse, int, intNumber] at parsed
          split at parsed
          · rename_i whole isInt
            cases parsed
            exact ⟨whole, rfl, int32?_fits isInt⟩
          · cases parsed
      | _ => cases parsed
  | literal literal =>
      cases literal with
      | int number =>
          simp only [RawInput.parse, int] at parsed
          split at parsed
          · rename_i fits
            cases parsed
            exact ⟨number, rfl, fits⟩
          · cases parsed
      | _ => cases parsed

theorem float_parse {input : RawInput} {value : Json} (parsed : input.parse float = .ok value) :
    ∃ double, finite double = .ok value := by
  cases input with
  | json json =>
      cases json with
      | number number => exact ⟨_, parsed⟩
      | _ => cases parsed
  | literal literal =>
      cases literal with
      | int number => exact ⟨_, parsed⟩
      | float number => exact ⟨_, parsed⟩
      | _ => cases parsed

theorem string_parse {input : RawInput} {value : Json} (parsed : input.parse string = .ok value) :
    ∃ text, value = .string text := by
  cases input with
  | json json =>
      cases json with
      | string text => exact ⟨_, (Except.ok.inj parsed).symm⟩
      | _ => cases parsed
  | literal literal =>
      cases literal with
      | string text => exact ⟨_, (Except.ok.inj parsed).symm⟩
      | _ => cases parsed

theorem boolean_parse {input : RawInput} {value : Json}
    (parsed : input.parse boolean = .ok value) : ∃ flag, value = .bool flag := by
  cases input with
  | json json =>
      cases json with
      | bool flag => exact ⟨_, (Except.ok.inj parsed).symm⟩
      | _ => cases parsed
  | literal literal =>
      cases literal with
      | boolean flag => exact ⟨_, (Except.ok.inj parsed).symm⟩
      | _ => cases parsed

/-- Whole numbers become the texts of identifiers. -/
theorem id_parse {input : RawInput} {value : Json} (parsed : input.parse id = .ok value) :
    ∃ text, value = .string text := by
  cases input with
  | json json =>
      cases json with
      | string text => exact ⟨_, (Except.ok.inj parsed).symm⟩
      | number number =>
          cases number with
          | int whole => exact ⟨_, (Except.ok.inj parsed).symm⟩
          | float double => cases parsed
      | _ => cases parsed
  | literal literal =>
      cases literal with
      | string text => exact ⟨_, (Except.ok.inj parsed).symm⟩
      | int whole => exact ⟨_, (Except.ok.inj parsed).symm⟩
      | _ => cases parsed

private theorem int_parsesValues : ParsesValues int := by
  intro input free notNull value parsed
  rcases int_parse parsed with ⟨number, rfl, _⟩
  rfl

private theorem float_parsesValues : ParsesValues float := by
  intro input free notNull value parsed
  rcases float_parse parsed with ⟨double, isFinite⟩
  exact finite_isNumber isFinite

private theorem string_parsesValues : ParsesValues string := by
  intro input free notNull value parsed
  rcases string_parse parsed with ⟨text, rfl⟩
  rfl

private theorem boolean_parsesValues : ParsesValues boolean := by
  intro input free notNull value parsed
  rcases boolean_parse parsed with ⟨flag, rfl⟩
  rfl

private theorem id_parsesValues : ParsesValues id := by
  intro input free notNull value parsed
  rcases id_parse parsed with ⟨text, rfl⟩
  rfl

theorem all_parseValues {type : NamedType} (isBuiltIn : type ∈ all) {scalar : ScalarShape}
    (isScalar : type.shape = .scalar scalar) : ParsesValues scalar :=
  all_have string_parsesValues int_parsesValues float_parsesValues
    boolean_parsesValues id_parsesValues isBuiltIn isScalar

end Scalar

/-- An integer of 32 bits. -/
def Json.IsInt32 (value : Json) : Prop :=
  ∃ number : Int, value = .int number ∧ -2 ^ 31 ≤ number ∧ number ≤ 2 ^ 31 - 1

/-! ## Conforming values -/

namespace Registry

mutual

/-- A value that conforms to an input type. -/
inductive Conforms (registry : Registry) : TypeRef → Json → Prop
  | null {type : TypeRef} (mayBeNull : type.isNonNull = false) : Conforms registry type .null
  | nonNull {inner : TypeRef} {value : Json} (notNull : value.isNull = false)
      (inside : Conforms registry inner value) : Conforms registry (.nonNull inner) value
  | list {item : TypeRef} {values : List Json}
      (each : ∀ value ∈ values, Conforms registry item value) :
      Conforms registry (.list item) (.array values)
  /-- What the scalar makes of some input. -/
  | scalar {type : TypeRef} {named : NamedType} {shape : ScalarShape} {input : RawInput}
      {value : Json} (isBare : type.isBare = true) (resolved : registry.resolve? type = some named)
      (isScalar : named.shape = .scalar shape) (free : input.IsFree)
      (notNull : input.isNull = false) (parsed : input.parse shape = .ok value)
      (isInt : named.name = "Int" → value.IsInt32) : Conforms registry type value
  | enum {type : TypeRef} {named : NamedType} {values : List EnumValueDefinition}
      {definition : EnumValueDefinition} (isBare : type.isBare = true)
      (resolved : registry.resolve? type = some named) (isEnum : named.shape = .enum values)
      (declared : definition ∈ values) : Conforms registry type definition.value
  | object {type : TypeRef} {named : NamedType} {definitions : List InputValueDefinition}
      {entries : List (String × Json)} (isBare : type.isBare = true)
      (resolved : registry.resolve? type = some named)
      (isObject : named.shape = .inputObject definitions)
      (each : ConformsFields registry definitions entries) :
      Conforms registry type (.object entries)

/-- The entries of an object are in the order of the definitions of an input object. Only what may
be null and has no default may be missing. -/
inductive ConformsFields (registry : Registry) :
    List InputValueDefinition → List (String × Json) → Prop
  | nil : ConformsFields registry [] []
  | present {definition : InputValueDefinition} {definitions : List InputValueDefinition}
      {value : Json} {entries : List (String × Json)}
      (conforms : Conforms registry definition.type value)
      (later : ConformsFields registry definitions entries) :
      ConformsFields registry (definition :: definitions) ((definition.name, value) :: entries)
  | missing {definition : InputValueDefinition} {definitions : List InputValueDefinition}
      {entries : List (String × Json)} (noDefault : definition.default = none)
      (mayBeNull : definition.type.isNonNull = false)
      (later : ConformsFields registry definitions entries) :
      ConformsFields registry (definition :: definitions) entries

end

/-- The defaults of input fields conform to their types, no enum value stands for null, and the
scalars of the application parse nothing but null to null. -/
structure SoundInputs (registry : Registry) : Prop where
  defaults : ∀ type ∈ registry.types, ∀ fields ∈ type.inputFields?, ∀ field ∈ fields,
    ∀ value ∈ field.default, registry.Conforms field.type value
  enums : ∀ type ∈ registry.types, ∀ values, type.shape = .enum values →
    ∀ definition ∈ values, definition.value.isNull = false
  scalars : ∀ type ∈ registry.types, type ∉ Scalar.all → ∀ shape, type.shape = .scalar shape →
    Scalar.ParsesValues shape

/-- No enum value stands for null, and the scalars of the application parse nothing but null to
null. -/
structure SolidInputs (registry : Registry) : Prop where
  enums : ∀ type ∈ registry.types, ∀ values, type.shape = .enum values →
    ∀ definition ∈ values, definition.value.isNull = false
  scalars : ∀ type ∈ registry.types, type ∉ Scalar.all → ∀ shape, type.shape = .scalar shape →
    Scalar.ParsesValues shape

/-- What is known by the name of the built-in integers is parsed to integers of 32 bits. -/
def ParsesInts (registry : Registry) : Prop :=
  ∀ type named shape, registry.resolve? type = some named → named.shape = .scalar shape →
    named.name = "Int" → ∀ (input : RawInput) value, input.parse shape = .ok value → value.IsInt32

/-- The values of enums and the fields of input objects are known by names of their own. -/
structure DistinctMembers (registry : Registry) : Prop where
  values : ∀ type ∈ registry.types, ∀ values, type.shape = .enum values →
    (Named.names values).Nodup
  fields : ∀ type ∈ registry.types, ∀ definitions, type.shape = .inputObject definitions →
    (Named.names definitions).Nodup

end Registry

theorem RawInput.free_items {input : RawInput} {items : List RawInput} (free : input.IsFree)
    (isList : input.items? = some items) : ∀ item ∈ items, item.IsFree := by
  intro item listed
  cases input with
  | json json =>
      cases json with
      | array values =>
          cases isList
          rcases List.mem_map.mp listed with ⟨value, _, rfl⟩
          trivial
      | _ => cases isList
  | literal literal =>
      cases literal with
      | list values =>
          cases isList
          rcases List.mem_map.mp listed with ⟨value, member, rfl⟩
          exact items_of_free free value member
      | _ => cases isList

theorem RawInput.free_fields {input : RawInput} {fields : List (String × RawInput)}
    (free : input.IsFree) (isObject : input.fields? = some fields) :
    ∀ field ∈ fields, field.2.IsFree := by
  intro field listed
  cases input with
  | json json =>
      cases json with
      | object values =>
          cases isObject
          rcases List.mem_map.mp listed with ⟨value, _, rfl⟩
          trivial
      | _ => cases isObject
  | literal literal =>
      cases literal with
      | object values =>
          cases isObject
          rcases List.mem_map.mp listed with ⟨value, member, rfl⟩
          exact fields_of_free free value member
      | _ => cases isObject

namespace Registry

variable {registry : Registry} {schema : Schema}

theorem distinctMembers_of
    (values : ∀ type ∈ registry.types,
      (Named.names ((MetaObject.enumValues? type).getD [])).Nodup)
    (fields : ∀ type ∈ registry.types, (Named.names (type.inputFields?.getD [])).Nodup) :
    registry.DistinctMembers := by
  refine ⟨fun type listed members isEnum => ?_, fun type listed members isObject => ?_⟩
  · have distinct := values type listed
    rwa [MetaObject.enumValues?, isEnum] at distinct
  · have distinct := fields type listed
    rwa [NamedType.inputFields?, isObject] at distinct

theorem SolidInputs.scalar (solid : registry.SolidInputs) {type : TypeRef} {named : NamedType}
    {shape : ScalarShape} (resolved : registry.resolve? type = some named)
    (isScalar : named.shape = .scalar shape) : Scalar.ParsesValues shape := by
  by_cases isBuiltIn : named ∈ Scalar.all
  · exact Scalar.all_parseValues isBuiltIn isScalar
  · exact solid.scalars named (Named.find?_mem resolved).1 isBuiltIn shape isScalar

private theorem SolidInputs.enum (solid : registry.SolidInputs) {type : TypeRef} {named : NamedType}
    {values : List EnumValueDefinition} {name : String} {value : Json}
    (resolved : registry.resolve? type = some named) (isEnum : named.shape = .enum values)
    (declared : EnumValueDefinition.parseName? values name = some value) :
    value.isNull = false := by
  rcases Option.map_eq_some_iff.mp declared with ⟨definition, found, rfl⟩
  exact solid.enums named (Named.find?_mem resolved).1 values isEnum definition
    (Named.find?_mem found).1

theorem SoundInputs.solid (sound : registry.SoundInputs) : registry.SolidInputs :=
  ⟨sound.enums, sound.scalars⟩

/-- Null is made of null only. -/
theorem Coerces.notNull (solid : registry.SolidInputs) {type : TypeRef} {input : RawInput}
    {value : Json} (coerces : registry.Coerces type input value) (free : input.IsFree)
    (notNull : input.isNull = false) : value.isNull = false := by
  induction type with
  | nonNull inner induction => exact induction ((coerces_nonNull notNull).mp coerces)
  | list | named | direct | deferred =>
      by_contra isNull
      cases Json.eq_null (Bool.not_eq_false _ ▸ isNull)
      cases coerces with
      | null inputIsNull =>
          rw [notNull] at inputIsNull
          cases inputIsNull
      | scalar _ _ resolved isScalar parsed =>
          exact isNull (solid.scalar resolved isScalar input free notNull _ parsed)
      | enum _ resolved isEnum _ declared => exact isNull (solid.enum resolved isEnum declared)

/-- In a registry that was built the integers are the built-in ones. -/
theorem parsesInts_of_yields (yields : schema.Yields registry) : registry.ParsesInts := by
  intro type named shape resolved isScalar isName input value parsed
  have isInt : Scalar.all[1] ∈ Scalar.all ++ Meta.all :=
    List.mem_append_left _ (List.getElem_mem _)
  have found := yields.lookup_builtIn isInt
  have sameName : type.typeName = Scalar.all[1].name :=
    (Named.find?_mem resolved).2.symm.trans isName
  rw [resolve?, sameName, found] at resolved
  cases resolved
  cases isScalar
  rcases Scalar.int_parse parsed with ⟨number, rfl, fits⟩
  refine ⟨number, rfl, ?_⟩
  simp only [fitsInt32, Bool.and_eq_true, decide_eq_true_eq] at fits
  omega

mutual

/-- What is coerced conforms. -/
theorem Coerces.conforms (sound : registry.SoundInputs) (ints : registry.ParsesInts)
    {type : TypeRef} {input : RawInput} {value : Json}
    (coerces : registry.Coerces type input value) (free : input.IsFree) :
    registry.Conforms type value := by
  cases coerces with
  | null isNull mayBeNull => exact .null mayBeNull
  | nonNull notNull inside =>
      exact .nonNull (inside.notNull sound.solid free notNull)
        (Coerces.conforms sound ints inside free)
  | list isList each =>
      exact .list (CoercesItems.conforms sound ints each (RawInput.free_items free isList))
  | single notNull notList inside =>
      exact .list (List.forall_mem_singleton.mpr (Coerces.conforms sound ints inside free))
  | scalar isBare notNull resolved isScalar parsed =>
      exact .scalar isBare resolved isScalar free notNull parsed
        fun isName => ints _ _ _ resolved isScalar isName _ _ parsed
  | enum isBare resolved isEnum isName declared =>
      rcases Option.map_eq_some_iff.mp declared with ⟨definition, found, isValue⟩
      subst isValue
      exact .enum isBare resolved isEnum (Named.find?_mem found).1
  | @object _ _ named definitions _ _ isBare resolved isObject isFields known each =>
      have isInputObject : named.inputFields? = some definitions := by
        rw [NamedType.inputFields?, isObject]
      have defaults := sound.defaults named (Named.find?_mem resolved).1 definitions isInputObject
      exact .object isBare resolved isObject
        (CoercesFields.conforms sound ints each (RawInput.free_fields free isFields) defaults)

private theorem CoercesItems.conforms (sound : registry.SoundInputs) (ints : registry.ParsesInts)
    {item : TypeRef} {inputs : List RawInput} {values : List Json}
    (coerces : registry.CoercesItems item inputs values) (free : ∀ input ∈ inputs, input.IsFree) :
    ∀ value ∈ values, registry.Conforms item value := by
  cases coerces with
  | nil => exact nofun
  | cons head tail =>
      have parts := List.forall_mem_cons.mp free
      exact List.forall_mem_cons.mpr ⟨Coerces.conforms sound ints head parts.1,
        CoercesItems.conforms sound ints tail parts.2⟩

private theorem CoercesFields.conforms (sound : registry.SoundInputs) (ints : registry.ParsesInts)
    {fields : List (String × RawInput)} {definitions : List InputValueDefinition}
    {entries : List (String × Json)} (coerces : registry.CoercesFields fields definitions entries)
    (free : ∀ field ∈ fields, field.2.IsFree)
    (defaults : ∀ definition ∈ definitions, ∀ value ∈ definition.default,
      registry.Conforms definition.type value) :
    registry.ConformsFields definitions entries := by
  cases coerces with
  | nil => exact .nil
  | given isGiven coerced later =>
      have parts := List.forall_mem_cons.mp defaults
      exact .present (Coerces.conforms sound ints coerced (free _ (Named.value?_mem isGiven)))
        (CoercesFields.conforms sound ints later free parts.2)
  | default absent isDefault later =>
      have parts := List.forall_mem_cons.mp defaults
      exact .present (parts.1 _ isDefault) (CoercesFields.conforms sound ints later free parts.2)
  | leftOut absent noDefault mayBeNull later =>
      have parts := List.forall_mem_cons.mp defaults
      exact .missing noDefault mayBeNull (CoercesFields.conforms sound ints later free parts.2)

end

end Registry

/-- Values that JSON and literals without variables are coerced to conform to the type, and have
what the input says: objects what it mentions and what has a default, and nothing else. -/
theorem coerce_conforms (schema : Schema) (registry : Registry)
    (built : schema.build = .ok registry) (sound : registry.SoundInputs) :
    (∀ type json value, registry.coerceValue json type = .ok value →
      registry.Conforms type value ∧ registry.Coerces type (.json json) value) ∧
    ∀ values? type literal value, literal.variableNames = [] →
      registry.coerceLiteral values? literal type = .ok value →
        registry.Conforms type value ∧ registry.Coerces type (.literal literal) value := by
  have ints := Registry.parsesInts_of_yields (Schema.build_yields built)
  have conforms : ∀ values? type (input : RawInput) value, input.IsFree →
      input.read registry values? type = .ok value →
        registry.Conforms type value ∧ registry.Coerces type input value := by
    intro values? type input value free isRead
    have coerces := (RawInput.read_eq_ok free).mp isRead
    exact ⟨Registry.Coerces.conforms sound ints coerces free, coerces⟩
  exact ⟨fun type json value => conforms none type (.json json) value trivial,
    fun values? type literal value => conforms values? type (.literal literal) value⟩

namespace Mailroom

/-! Parcels have a weight, a size, labels, and may have another parcel inside. -/

def size : NamedType where
  key := .custom 0
  name := "Size"
  shape := .enum [{ name := "SMALL", value := .int 1 }, { name := "LARGE", value := .int 2 }]

def parcel : NamedType where
  key := .custom 1
  name := "Parcel"
  shape := .inputObject
    [{ name := "weight", type := .nonNull (.named "Int"), default := some (.int 1) },
      { name := "size", type := .direct size.toInstance },
      { name := "labels", type := .list (.nonNull (.named "String")) },
      { name := "inside", type := .named "Parcel" }]

def query : NamedType where
  key := .custom 2
  name := "Query"
  shape := .object
    { fields := [{ name := "send", type := .named "Boolean",
                   arguments := [{ name := "parcel", type := .direct parcel.toInstance }] }] }

def schema : Schema where
  pool := [size, parcel, query]
  query := query.toInstance

def registry : Registry where
  types := Scalar.all ++ Meta.all ++ [query, parcel, size]
  query := query
  mutation := none
  subscription := none
  directives := DirectiveDefinition.builtIn
  possibleTypes := []

private theorem built : schema.build = .ok registry := rfl

private theorem one_conforms : registry.Conforms (.nonNull (.named "Int")) (.int 1) := by
  have isInt : registry.resolve? (.named "Int") = some Scalar.all[1] := rfl
  have isScalar : Scalar.all[1].shape = .scalar Scalar.int := rfl
  have free : (RawInput.json (.int 1)).IsFree := trivial
  have parsed : (RawInput.json (.int 1)).parse Scalar.int = .ok (.int 1) := rfl
  have isInt32 : (Json.int 1).IsInt32 := ⟨1, rfl, by decide, by decide⟩
  exact .nonNull rfl (.scalar rfl isInt isScalar free rfl parsed fun _ => isInt32)

theorem soundInputs : registry.SoundInputs := by
  refine ⟨?_, ?_, ?_⟩
  · intro type listed fields isFields field member value isDefault
    have noFields : ∀ other ∈ Scalar.all ++ Meta.all, other.inputFields?.isNone = true :=
      List.all_eq_true.mp rfl
    rcases List.mem_append.mp listed with builtIn | own
    · have none := noFields type builtIn
      rw [Option.mem_def.mp isFields] at none
      cases none
    · simp only [List.mem_cons, List.not_mem_nil, or_false] at own
      rcases own with rfl | rfl | rfl
      · cases isFields
      · cases isFields
        simp only [List.mem_cons, List.not_mem_nil, or_false] at member
        rcases member with rfl | rfl | rfl | rfl
        · cases isDefault
          exact one_conforms
        all_goals cases isDefault
      · cases isFields
  · intro type listed values isEnum definition declared
    have noNull : ∀ other ∈ registry.types, (((MetaObject.enumValues? other).getD []).all
        fun definition => !definition.value.isNull) = true := List.all_eq_true.mp rfl
    have none := noNull type listed
    rw [MetaObject.enumValues?, isEnum] at none
    simpa using List.all_eq_true.mp none definition declared
  · intro type listed notBuiltIn shape isScalar
    have noScalar : ∀ other ∈ Meta.all ++ [query, parcel, size], other.kind ≠ .scalar := by
      decide
    have inside : type ∈ Scalar.all ++ (Meta.all ++ [query, parcel, size]) := by
      rw [← List.append_assoc]
      exact listed
    rcases List.mem_append.mp inside with builtIn | other
    · exact absurd builtIn notBuiltIn
    · refine absurd ?_ (noScalar type other)
      rw [NamedType.kind, isScalar]

def given : Json :=
  .object [("labels", .string "fragile"),
    ("inside", .object [("size", .string "LARGE"), ("weight", .int 3)])]

private theorem given_coerced : registry.coerceValue given (.named "Parcel") =
    .ok (.object [("weight", .int 1), ("labels", .array [.string "fragile"]),
      ("inside", .object [("weight", .int 3), ("size", .int 2)])]) := by
  rfl

def written : Literal := .object [("inside", .null), ("size", .enum "SMALL")]

private theorem written_coerced :
    registry.coerceLiteral none written (.nonNull (.direct parcel.toInstance)) =
      .ok (.object [("weight", .int 1), ("size", .int 1), ("inside", .null)]) := by
  rfl

end Mailroom

/-- What is left out has its default, or is not there; null is there if it is written. -/
theorem coerce_conforms_of_mailroom :
    Mailroom.schema.build = .ok Mailroom.registry ∧
      (∃ value, Mailroom.registry.coerceValue Mailroom.given (.named "Parcel") = .ok value ∧
        Mailroom.registry.Conforms (.named "Parcel") value) ∧
      Mailroom.registry.Conforms (.nonNull (.direct Mailroom.parcel.toInstance))
        (.object [("weight", .int 1), ("size", .int 1), ("inside", .null)]) := by
  have conforms := coerce_conforms Mailroom.schema Mailroom.registry Mailroom.built Mailroom.soundInputs
  exact ⟨Mailroom.built, ⟨_, Mailroom.given_coerced, (conforms.1 _ _ _ Mailroom.given_coerced).1⟩,
    (conforms.2 _ _ _ _ rfl Mailroom.written_coerced).1⟩

end GraphQL
