import GraphQL.Proofs.Coercion.Printing

/-!
Coercion is idempotent. What is coerced to a type has the form that the type gives its values: lists
at every level, objects with their defaults in the order of the definitions, numbers and identifiers
of the scalar's kind. A value of this form is coerced to itself, so a single value is made a list
once only.
-/

namespace GraphQL

/-! ## Scalars -/

namespace Scalar

/-- What is parsed is, as a value, parsed to itself. -/
private def Settles (scalar : ScalarShape) : Prop :=
  ∀ input : RawInput, input.IsFree → input.isNull = false → ∀ value,
    input.parse scalar = .ok value → scalar.parseValue value = .ok value

private theorem int_settles : Settles int := by
  intro input _ _ value parsed
  rcases int_parse parsed with ⟨number, rfl, fits⟩
  have isInt : int32? (.int number) = some number := if_pos fits
  simp only [int, Json.int, intNumber, isInt]

private theorem finite_settles {number : Float} {value : Json}
    (isFinite : finite number = .ok value) :
    float.parseValue value = .ok value := by
  have isNumber := isFinite
  rw [finite, Json.ofFloat?] at isNumber
  split at isNumber
  · rename_i json given
    cases isNumber
    split at given
    · cases given
      exact isFinite
    · cases given
  · cases isNumber

private theorem float_settles : Settles float := by
  intro input _ _ value parsed
  rcases float_parse parsed with ⟨double, isFinite⟩
  exact finite_settles isFinite

private theorem string_settles : Settles string := by
  intro input _ _ value parsed
  rcases string_parse parsed with ⟨text, rfl⟩
  rfl

private theorem boolean_settles : Settles boolean := by
  intro input _ _ value parsed
  rcases boolean_parse parsed with ⟨flag, rfl⟩
  rfl

private theorem id_settles : Settles id := by
  intro input _ _ value parsed
  rcases id_parse parsed with ⟨text, rfl⟩
  rfl

private theorem all_settle {type : NamedType} (isBuiltIn : type ∈ all) {scalar : ScalarShape}
    (isScalar : type.shape = .scalar scalar) : Settles scalar :=
  all_have string_settles int_settles float_settles
    boolean_settles id_settles isBuiltIn isScalar

end Scalar

/-! ## Settled values -/

namespace Registry

variable {registry : Registry}

/-- The scalars of the application take anything, enum values stand for their own names, and the
defaults of input fields are coerced to themselves. -/
structure StableInputs (registry : Registry) : Prop where
  members : registry.DistinctMembers
  scalars : registry.TakesAnything
  enums : ∀ type ∈ registry.types, ∀ values, type.shape = .enum values →
    ∀ definition ∈ values, definition.value = .string definition.name
  defaults : ∀ type ∈ registry.types, ∀ definitions, type.shape = .inputObject definitions →
    ∀ definition ∈ definitions, ∀ value ∈ definition.default,
      registry.coerceValue value definition.type = .ok value

namespace StableInputs

private theorem scalar (stable : registry.StableInputs) {type : TypeRef} {named : NamedType}
    {shape : ScalarShape} (resolved : registry.resolve? type = some named)
    (isScalar : named.shape = .scalar shape) : Scalar.Settles shape := by
  by_cases isBuiltIn : named ∈ Scalar.all
  · exact Scalar.all_settle isBuiltIn isScalar
  · have same := stable.scalars named (Named.find?_mem resolved).1 isBuiltIn shape isScalar
    intro input _ _ value _
    rw [same.1]
    rfl

private theorem solid (stable : registry.StableInputs) : registry.SolidInputs where
  enums type listed values isEnum definition declared := by
    rw [stable.enums type listed values isEnum definition declared]
    rfl
  scalars type listed notBuiltIn shape isScalar :=
    have same := stable.scalars type listed notBuiltIn shape isScalar
    Scalar.any_parsesValues same.1 same.2

end StableInputs

/-- A value that is coerced to itself. -/
private def Settled (registry : Registry) (type : TypeRef) (value : Json) : Prop :=
  registry.Coerces type (.json value) value

private theorem settled_list {item : TypeRef} {values : List Json}
    (each : ∀ value ∈ values, registry.Settled item value) :
    registry.Settled (.list item) (.array values) := by
  have items : registry.CoercesItems item (values.map .json) values := by
    induction values with
    | nil => exact .nil
    | cons head tail induction =>
        have parts := List.forall_mem_cons.mp each
        exact .cons parts.1 (induction parts.2)
  exact .list rfl items

private theorem settled_enum {type : TypeRef} {named : NamedType}
    {values : List EnumValueDefinition}
    {name : String} {value : Json} (stable : registry.StableInputs) (isBare : type.isBare = true)
    (resolved : registry.resolve? type = some named) (isEnum : named.shape = .enum values)
    (declared : EnumValueDefinition.parseName? values name = some value) :
    registry.Settled type value := by
  rcases Option.map_eq_some_iff.mp declared with ⟨definition, found, isValue⟩
  have member := Named.find?_mem found
  have isName : value = .string name := by
    have isListed := (Named.find?_mem resolved).1
    rw [← isValue, stable.enums named isListed values isEnum definition member.1]
    exact congrArg Json.string member.2
  subst isName
  exact .enum isBare resolved isEnum rfl declared

/-- The entries of an object are coerced to themselves wherever the definitions find just these. -/
private def SettledFields (registry : Registry) (definitions : List InputValueDefinition)
    (entries : List (String × Json)) : Prop :=
  (Named.names entries).Sublist (Named.names definitions) ∧
    ∀ source : List (String × RawInput),
      (∀ definition ∈ definitions, Named.value? source definition.name =
        (Named.value? entries definition.name).map .json) →
      registry.CoercesFields source definitions entries

private theorem settledFields_present {definition : InputValueDefinition}
    {definitions : List InputValueDefinition} {value : Json} {entries : List (String × Json)}
    (apart : definition.name ∉ Named.names definitions)
    (settled : registry.Settled definition.type value)
    (later : registry.SettledFields definitions entries) :
    registry.SettledFields (definition :: definitions) ((definition.name, value) :: entries) := by
  refine ⟨later.1.cons_cons _, fun source given => ?_⟩
  have parts := List.forall_mem_cons.mp given
  have isGiven := parts.1
  rw [Named.value?_cons, if_pos rfl] at isGiven
  refine .given isGiven settled (later.2 source fun other member => ?_)
  have different : definition.name ≠ other.name := fun same =>
    apart (List.mem_map.mpr ⟨other, member, same.symm⟩)
  rw [parts.2 other member, Named.value?_cons, if_neg different]

private theorem settledFields_missing {definition : InputValueDefinition}
    {definitions : List InputValueDefinition} {entries : List (String × Json)}
    (apart : definition.name ∉ Named.names definitions) (noDefault : definition.default = none)
    (mayBeNull : definition.type.isNonNull = false)
    (later : registry.SettledFields definitions entries) :
    registry.SettledFields (definition :: definitions) entries := by
  refine ⟨later.1.cons _, fun source given => ?_⟩
  have parts := List.forall_mem_cons.mp given
  have absent : Named.value? entries definition.name = none :=
    Named.value?_eq_none.mpr fun member => apart (later.1.subset member)
  refine .leftOut ?_ noDefault mayBeNull (later.2 source parts.2)
  rw [parts.1, absent]
  rfl

private theorem settled_object {type : TypeRef} {named : NamedType}
    {definitions : List InputValueDefinition} {entries : List (String × Json)}
    (isBare : type.isBare = true) (resolved : registry.resolve? type = some named)
    (isObject : named.shape = .inputObject definitions)
    (each : registry.SettledFields definitions entries) :
    registry.Settled type (.object entries) := by
  have sameNames : Named.names (entries.map fun entry => (entry.1, RawInput.json entry.2)) =
      Named.names entries := by
    simp [Named.names, nameOf]
  refine .object isBare resolved isObject rfl ?_ (each.2 _ fun definition _ => ?_)
  · intro name member
    rw [sameNames] at member
    rcases List.mem_map.mp (each.1.subset member) with ⟨definition, listed, rfl⟩
    exact List.any_eq_true.mpr ⟨definition, listed, by simp⟩
  · exact Named.value?_map (fun _ => RawInput.json) entries definition.name

/-! ## Coerced values are settled -/

/-- The defaults of definitions are coerced to themselves, and their names tell them apart. -/
structure StableFields (registry : Registry) (definitions : List InputValueDefinition) : Prop where
  distinct : (Named.names definitions).Nodup
  fixed : ∀ definition ∈ definitions, ∀ value ∈ definition.default,
    registry.Settled definition.type value

private theorem StableFields.cons {definition : InputValueDefinition}
    {definitions : List InputValueDefinition}
    (stable : registry.StableFields (definition :: definitions)) :
    definition.name ∉ Named.names definitions ∧
      (∀ value ∈ definition.default, registry.Settled definition.type value) ∧
      registry.StableFields definitions :=
  have apart := List.nodup_cons.mp stable.distinct
  have fixed := List.forall_mem_cons.mp stable.fixed
  ⟨apart.1, fixed.1, apart.2, fixed.2⟩

private theorem StableInputs.fields (stable : registry.StableInputs) {type : TypeRef}
    {named : NamedType}
    {definitions : List InputValueDefinition} (resolved : registry.resolve? type = some named)
    (isObject : named.shape = .inputObject definitions) : registry.StableFields definitions where
  distinct := stable.members.fields named (Named.find?_mem resolved).1 definitions isObject
  fixed definition member value isDefault :=
    (RawInput.reads_json none value definition.type value).mp
      (stable.defaults named (Named.find?_mem resolved).1 definitions isObject definition member
        value isDefault)

private theorem Coerces.settled (stable : registry.StableInputs) {type : TypeRef} {input : RawInput}
    {value : Json} (coerces : registry.Coerces type input value) :
    input.IsFree → registry.Settled type value := by
  refine @Coerces.rec registry
    (fun type input value _ => input.IsFree → registry.Settled type value)
    (fun item inputs values _ => (∀ input ∈ inputs, input.IsFree) →
      ∀ value ∈ values, registry.Settled item value)
    (fun fields definitions entries _ => (∀ field ∈ fields, field.2.IsFree) →
      registry.StableFields definitions → registry.SettledFields definitions entries)
    ?null ?nonNull ?list ?single ?scalar ?enum ?object ?noItems ?items ?noFields ?given ?default
    ?leftOut type input value coerces
  case null => exact fun _ mayBeNull _ => .null rfl mayBeNull
  case nonNull =>
    intro inner input value notNull inside settled free
    exact .nonNull (inside.notNull stable.solid free notNull) (settled free)
  case list =>
    intro item input items values isList _ settled free
    exact settled_list (settled (RawInput.free_items free isList))
  case single =>
    intro item input value _ _ _ settled free
    exact settled_list (List.forall_mem_singleton.mpr (settled free))
  case scalar =>
    intro type input named shape value isBare notNull resolved isScalar parsed free
    have solid := stable.solid.scalar resolved isScalar
    exact .scalar isBare (solid input free notNull value parsed) resolved isScalar
      (stable.scalar resolved isScalar input free notNull value parsed)
  case enum =>
    intro type input named values name value isBare resolved isEnum _ declared _
    exact settled_enum stable isBare resolved isEnum declared
  case object =>
    intro type input named definitions fields entries isBare resolved isObject isFields _ _ settled
      free
    exact settled_object isBare resolved isObject
      (settled (RawInput.free_fields free isFields) (stable.fields resolved isObject))
  case noItems => exact fun _ => List.forall_mem_nil _
  case items =>
    intro item input inputs value values _ _ settled later free
    have parts := List.forall_mem_cons.mp free
    exact List.forall_mem_cons.mpr ⟨settled parts.1, later parts.2⟩
  case noFields => exact fun _ _ => ⟨.slnil, fun _ _ => .nil⟩
  case given =>
    intro fields definition definitions input value entries isGiven _ _ settled later free ofFields
    have parts := ofFields.cons
    exact settledFields_present parts.1 (settled (free _ (Named.value?_mem isGiven)))
      (later free parts.2.2)
  case default =>
    intro fields definition definitions value entries _ isDefault _ later free ofFields
    have parts := ofFields.cons
    exact settledFields_present parts.1 (parts.2.1 value isDefault) (later free parts.2.2)
  case leftOut =>
    intro fields definition definitions entries _ noDefault mayBeNull _ later free ofFields
    have parts := ofFields.cons
    exact settledFields_missing parts.1 noDefault mayBeNull (later free parts.2.2)

end Registry

/-- What JSON and literals without variables are coerced to is coerced to itself: the keys in the
same order, and numbers of the same kind. So a single value that stands for a list becomes the list
of it, and then stays one list. -/
theorem coercion_idempotent (registry : Registry) (stable : registry.StableInputs) :
    (∀ type json value, registry.coerceValue json type = .ok value →
      registry.coerceValue value type = .ok value) ∧
    (∀ values? type literal value, literal.variableNames = [] →
      registry.coerceLiteral values? literal type = .ok value →
        registry.coerceValue value type = .ok value) ∧
    ∀ item json value, json.isNull = false → json.asArray? = none →
      registry.coerceValue json (.list item) = .ok value →
        ∃ only, registry.coerceValue json item = .ok only ∧ value = .array [only] ∧
          registry.coerceValue (.array [only]) (.list item) = .ok (.array [only]) := by
  have again : ∀ values? type (input : RawInput) value, input.IsFree →
      input.read registry values? type = .ok value →
        registry.coerceValue value type = .ok value := by
    intro values? type input value free isRead
    have settled := ((RawInput.read_eq_ok free).mp isRead).settled stable free
    exact (RawInput.reads_json none value type value).mpr settled
  refine ⟨fun type json value => again none type (.json json) value trivial,
    fun values? type literal value => again values? type (.literal literal) value, ?_⟩
  intro item json value notNull notArray coerced
  have notList : (RawInput.json json).items? = none := by
    cases json with
    | array items => cases notArray
    | _ => rfl
  have coerces := (RawInput.reads_json none json (.list item) value).mp coerced
  have isSingle : registry.Coerces (.list item) (.json json) value ↔ _ :=
    Registry.coerces_single notNull notList
  rcases isSingle.mp coerces with ⟨only, inside, rfl⟩
  exact ⟨only, (RawInput.reads_json none json item only).mpr inside, rfl,
    again none (.list item) (.json json) (.array [only]) trivial coerced⟩

namespace Orchard

/-! An order is for fruit, apples by default, in rows of crates; labels may be anything. -/

def fruit : NamedType where
  key := .custom 0
  name := "Fruit"
  shape := Meta.enumOf ["APPLE", "PEAR"]

def label : NamedType where
  key := .custom 1
  name := "Label"
  shape := .scalar .any

def order : NamedType where
  key := .custom 2
  name := "Order"
  shape := .inputObject
    [{ name := "fruit", type := .nonNull (.direct fruit.toInstance),
       default := some (.string "APPLE") },
      { name := "rows", type := .list (.list (.nonNull (.named "Int"))) },
      { name := "code", type := .named "ID" },
      { name := "labels", type := .list (.direct label.toInstance) },
      { name := "next", type := .named "Order" }]

def query : NamedType where
  key := .custom 3
  name := "Query"
  shape := .object
    { fields := [{ name := "send", type := .named "Boolean",
                   arguments := [{ name := "order", type := .direct order.toInstance }] }] }

def registry : Registry where
  types := Scalar.all ++ Meta.all ++ [query, order, fruit, label]
  query := query
  mutation := none
  subscription := none
  directives := DirectiveDefinition.builtIn
  possibleTypes := []

private theorem stableInputs : registry.StableInputs where
  members := Registry.distinctMembers_of (by decide) (by decide)
  scalars := by
    refine Registry.takesAnything_of rfl fun type listed shape isScalar => ?_
    simp only [List.mem_cons, List.not_mem_nil, or_false] at listed
    rcases listed with rfl | rfl | rfl | rfl <;> cases isScalar
    exact ⟨rfl, rfl⟩
  enums := by
    intro type listed values isEnum definition declared
    have byName : ∀ type ∈ registry.types, (((MetaObject.enumValues? type).getD []).all
        fun definition => definition.value.asString? == some definition.name) = true :=
      List.all_eq_true.mp rfl
    have named := byName type listed
    rw [MetaObject.enumValues?, isEnum] at named
    have isName := List.all_eq_true.mp named definition declared
    cases value : definition.value with
    | string text => simpa [Json.asString?, value] using isName
    | _ => simp [Json.asString?, value] at isName
  defaults := by
    intro type listed definitions isObject definition member value isDefault
    have noFields : ∀ other ∈ Scalar.all ++ Meta.all, other.inputFields?.isNone = true :=
      List.all_eq_true.mp rfl
    rcases List.mem_append.mp listed with builtIn | own
    · have none := noFields type builtIn
      rw [NamedType.inputFields?, isObject] at none
      cases none
    · simp only [List.mem_cons, List.not_mem_nil, or_false] at own
      rcases own with rfl | rfl | rfl | rfl <;> cases isObject
      simp only [List.mem_cons, List.not_mem_nil, or_false] at member
      rcases member with rfl | rfl | rfl | rfl | rfl <;> cases isDefault
      rfl

def given : Json :=
  .object [("labels", .object [("by", .string "hand")]), ("rows", .int 3), ("code", .int 7),
    ("next", .object [("rows", .array [.int 1, .array [.int 2]]), ("fruit", .string "PEAR")])]

def filled : Json :=
  .object [("fruit", .string "APPLE"), ("rows", .array [.array [.int 3]]), ("code", .string "7"),
    ("labels", .array [.object [("by", .string "hand")]]),
    ("next", .object [("fruit", .string "PEAR"),
      ("rows", .array [.array [.int 1], .array [.int 2]])])]

private theorem given_coerced : registry.coerceValue given (.named "Order") = .ok filled := rfl

end Orchard

theorem coercion_idempotent_of_orchard :
    Orchard.registry.coerceValue Orchard.given (.named "Order") = .ok Orchard.filled ∧
      Orchard.registry.coerceValue Orchard.filled (.named "Order") = .ok Orchard.filled ∧
      Orchard.registry.coerceValue (.array [.array [.int 3]])
          (.list (.list (.nonNull (.named "Int")))) =
        .ok (.array [.array [.int 3]]) := by
  have idempotent := coercion_idempotent Orchard.registry Orchard.stableInputs
  have rows : Orchard.registry.coerceValue (.int 3) (.list (.list (.nonNull (.named "Int")))) =
      .ok (.array [.array [.int 3]]) := rfl
  rcases idempotent.2.2 _ _ _ rfl rfl rows with ⟨only, _, isOnly, stays⟩
  exact ⟨Orchard.given_coerced, idempotent.1 _ _ _ Orchard.given_coerced, isOnly ▸ stays⟩

end GraphQL
