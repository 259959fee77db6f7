import GraphQL.Proofs.Coercion.Conformance
import GraphQL.Proofs.Coercion.Inline
import GraphQL.Proofs.Document.Literals
import GraphQL.Proofs.Document.Objects

/-!
The values that introspection prints as defaults, read back. What is printed for a value of a type
is the text of a constant, if its scalars have JSON text that is one, and coercing the constant
gives the value again. The JSON text of an object with keys is no constant.
-/

namespace GraphQL

/-! ## The constant that is printed -/

namespace Registry

/-- The name of an enum value as a constant. Some names stand for other constants. -/
def enumLiteral? (name : String) : Option Literal :=
  if Grammar.isName name ∧ name ∉ ["true", "false", "null"] then some (.enum name) else none

/-- The constant that is printed for a value of a scalar or an enum. -/
def leafLiteral? (registry : Registry) (type : TypeRef) (value : Json) (room : Nat) :
    Option Literal :=
  match (registry.resolve? type).map NamedType.shape with
  | some (.enum values) => (EnumValueDefinition.serialize? values value).bind enumLiteral?
  | _ => value.literal? room

mutual

/-- The constant that is printed for a value, where some brackets may still be opened. Lists under
a doubled non-null mark are printed as JSON, and spell none here. -/
def inputLiteral? (registry : Registry) (type : TypeRef) : Json → Nat → Option Literal
  | .null, _ => some .null
  | .bool value, room => registry.leafLiteral? type (.bool value) room
  | .number value, room => registry.leafLiteral? type (.number value) room
  | .string value, room => registry.leafLiteral? type (.string value) room
  | .array items, room =>
      match type.listItem? with
      | some item =>
          match room with
          | 0 => none
          | room + 1 => (inputLiterals? registry item items room).map .list
      | none =>
          if type.nullable.isBare then registry.leafLiteral? type (.array items) room else none
  | .object fields, room =>
      match (registry.resolve? type).map NamedType.shape with
      | some (.inputObject definitions) =>
          match room with
          | 0 => none
          | room + 1 => (fieldLiterals? registry definitions fields room).map Literal.ofFields
      | _ => registry.leafLiteral? type (.object fields) room

private def inputLiterals? (registry : Registry) (type : TypeRef) :
    List Json → Nat → Option (List Literal)
  | [], _ => some []
  | item :: items, room => do
      let literal ← inputLiteral? registry type item room
      let literals ← inputLiterals? registry type items room
      return literal :: literals

private def fieldLiterals? (registry : Registry) (definitions : List InputValueDefinition) :
    List (String × Json) → Nat → Option (List (String × Literal))
  | [], _ => some []
  | (name, value) :: fields, room => do
      let literal ← (match Named.find? definitions name with
        | some definition => inputLiteral? registry definition.type value room
        | none => value.literal? room)
      let literals ← fieldLiterals? registry definitions fields room
      if Grammar.isName name then return (name, literal) :: literals else none

end

end Registry

namespace Grammar

variable {registry : Registry}

private theorem spells_enum {depth : Nat} {name : String} {literal : Literal}
    (isLiteral : Registry.enumLiteral? name = some literal) (shallow : depth ≤ Token.maxOpen) :
    Spells depth name.toList literal := by
  obtain ⟨⟨isName, isEnum⟩, ⟨⟩⟩ := Option.ite_none_right_eq_some.mp isLiteral
  have isNamed : named name = .enum name := by
    simp only [List.mem_cons, List.not_mem_nil, or_false, not_or] at isEnum
    simp [named, isEnum]
  exact isNamed ▸ spells_name isName shallow

/-- An enum value is printed as its name, and everything else as JSON. -/
private theorem leaf_cases {type : TypeRef} {value : Json} {room : Nat} {literal : Literal}
    (isLiteral : registry.leafLiteral? type value room = some literal) :
    (∃ named values name, registry.resolve? type = some named ∧ named.shape = .enum values ∧
      EnumValueDefinition.serialize? values value = some name ∧
        registry.printLeaf type value = name ∧ Registry.enumLiteral? name = some literal) ∨
    (∀ named values, registry.resolve? type = some named → named.shape ≠ .enum values) ∧
      registry.printLeaf type value = value.text ∧ value.literal? room = some literal := by
  rw [Registry.leafLiteral?] at isLiteral
  rw [Registry.printLeaf]
  rcases resolved : registry.resolve? type with _ | named
  · rw [resolved] at isLiteral
    exact .inr ⟨nofun, rfl, isLiteral⟩
  · rw [resolved, Option.map_some] at isLiteral
    rw [Option.map_some]
    rcases shape : named.shape with _ | _ | _ | _ | values | _
    case enum =>
      rw [shape] at isLiteral
      obtain ⟨name, isName, isEnum⟩ := Option.bind_eq_some_iff.mp isLiteral
      exact .inl ⟨named, values, name, rfl, shape, isName, by simp [isName], isEnum⟩
    all_goals
      rw [shape] at isLiteral
      refine .inr ⟨?_, rfl, isLiteral⟩
      rintro _ values ⟨⟩ isEnum
      rw [shape] at isEnum
      cases isEnum

private theorem spells_leaf {depth room : Nat} {type : TypeRef} {value : Json} {literal : Literal}
    (isLiteral : registry.leafLiteral? type value room = some literal)
    (shallow : depth + room ≤ Token.maxOpen) :
    Spells depth (registry.printLeaf type value).toList literal := by
  rcases leaf_cases isLiteral with ⟨_, _, name, _, _, _, isText, isEnum⟩ | ⟨_, isText, isJson⟩
  · exact isText ▸ spells_enum isEnum (Nat.le_of_add_right_le shallow)
  · exact isText ▸ spells_json value isJson shallow

mutual

private theorem spells_input {depth room : Nat} {type : TypeRef} (value : Json) {literal : Literal}
    (isLiteral : registry.inputLiteral? type value room = some literal)
    (shallow : depth + room ≤ Token.maxOpen) :
    Spells depth (registry.printInput type value).toList literal := by
  have level : depth ≤ Token.maxOpen := Nat.le_of_add_right_le shallow
  cases value with
  | null =>
      cases isLiteral
      rw [Registry.printInput]
      exact spells_name rfl level
  | bool value => exact spells_leaf isLiteral shallow
  | number value => exact spells_leaf isLiteral shallow
  | string value => exact spells_leaf isLiteral shallow
  | array items =>
      rw [Registry.inputLiteral?] at isLiteral
      rw [Registry.printInput]
      rcases isItem : type.listItem? with _ | item
      · rw [isItem] at isLiteral
        exact spells_leaf (Option.ite_none_right_eq_some.mp isLiteral).2 shallow
      · rw [isItem] at isLiteral
        cases room with
        | zero => cases isLiteral
        | succ room =>
            obtain ⟨literals, areLiterals, rfl⟩ := Option.map_eq_some_iff.mp isLiteral
            have deeper : depth + 1 + room ≤ Token.maxOpen := by omega
            have each := spells_inputs items areLiterals deeper
            have items := spells_list (by omega)
              (spellsItems_intercalate (by simp) (List.cons_ne_nil ',' [' ']) each)
            simpa using items
  | object fields =>
      rw [Registry.inputLiteral?] at isLiteral
      rw [Registry.printInput]
      rcases shape : (registry.resolve? type).map NamedType.shape with
        _ | _ | _ | _ | _ | _ | definitions
      case some.inputObject =>
        rw [shape] at isLiteral
        cases room with
        | zero => cases isLiteral
        | succ room =>
            obtain ⟨literals, areLiterals, rfl⟩ := Option.map_eq_some_iff.mp isLiteral
            have deeper : depth + 1 + room ≤ Token.maxOpen := by omega
            have each := spells_fields fields areLiterals deeper
            have fields := spells_object (by omega)
              (spellsFields_intercalate (by omega) (by simp) (List.cons_ne_nil ',' [' ']) each)
            simpa using fields
      all_goals
        rw [shape] at isLiteral
        exact spells_leaf isLiteral shallow

private theorem spells_inputs {depth room : Nat} {type : TypeRef} (values : List Json)
    {literals : List Literal}
    (areLiterals : registry.inputLiterals? type values room = some literals)
    (shallow : depth + room ≤ Token.maxOpen) :
    List.Forall₂ (Spells depth) ((registry.printInputs type values).map String.toList)
      literals := by
  cases values with
  | nil =>
      cases areLiterals
      exact .nil
  | cons head tail =>
      rw [Registry.inputLiterals?] at areLiterals
      obtain ⟨first, isFirst, areLiterals⟩ := Option.bind_eq_some_iff.mp areLiterals
      obtain ⟨others, areOthers, ⟨⟩⟩ := Option.bind_eq_some_iff.mp areLiterals
      exact .cons (spells_input head isFirst shallow) (spells_inputs tail areOthers shallow)

private theorem spells_fields {depth room : Nat} {definitions : List InputValueDefinition}
    (fields : List (String × Json)) {literals : List (String × Literal)}
    (areLiterals : registry.fieldLiterals? definitions fields room = some literals)
    (shallow : depth + room ≤ Token.maxOpen) :
    List.Forall₂ (SpellsField depth) ((registry.printFields definitions fields).map String.toList)
      literals := by
  cases fields with
  | nil =>
      cases areLiterals
      exact .nil
  | cons head tail =>
      obtain ⟨name, value⟩ := head
      rw [Registry.fieldLiterals?] at areLiterals
      obtain ⟨first, isFirst, areLiterals⟩ := Option.bind_eq_some_iff.mp areLiterals
      obtain ⟨others, areOthers, areLiterals⟩ := Option.bind_eq_some_iff.mp areLiterals
      obtain ⟨isName, ⟨⟩⟩ := Option.ite_none_right_eq_some.mp areLiterals
      rw [Registry.printFields, List.map_cons]
      refine .cons ⟨_, by simp; rfl, isName, ?_⟩ (spells_fields tail areOthers shallow)
      rcases found : Named.find? definitions name with _ | definition
      · rw [found] at isFirst
        exact spells_json value isFirst shallow
      · rw [found] at isFirst
        exact spells_input value isFirst shallow

end

end Grammar

/-! ## Scalars -/

namespace Json

private theorem isNull_literal {value : Json} {room : Nat} {literal : Literal}
    (isLiteral : value.literal? room = some literal) : literal.isNull = value.isNull := by
  cases value with
  | number number =>
      cases number with
      | int value =>
          obtain ⟨_, ⟨⟩⟩ := Option.ite_none_right_eq_some.mp isLiteral
          rfl
      | float value =>
          obtain ⟨_, ⟨⟩⟩ := Option.ite_none_right_eq_some.mp isLiteral
          rfl
  | string value =>
      obtain ⟨_, ⟨⟩⟩ := Option.ite_none_left_eq_some.mp isLiteral
      rfl
  | array items =>
      cases room with
      | zero => cases isLiteral
      | succ room =>
          obtain ⟨_, _, rfl⟩ := Option.map_eq_some_iff.mp isLiteral
          rfl
  | object fields =>
      cases room <;> cases fields <;> cases isLiteral
      rfl
  | _ =>
      cases isLiteral
      rfl

mutual

private theorem toJson_literal {room : Nat} (value : Json) {literal : Literal}
    (isLiteral : value.literal? room = some literal) (valueOf : String → Option Json) :
    literal.toJson valueOf = .ok value ∧ value.same value = true := by
  cases value with
  | null | bool =>
      cases isLiteral
      exact ⟨by rw [Literal.toJson], by simp [same]⟩
  | number number =>
      cases number with
      | int value =>
          obtain ⟨_, ⟨⟩⟩ := Option.ite_none_right_eq_some.mp isLiteral
          exact ⟨by rw [Literal.toJson]; rfl, by simp [same, Number.same]⟩
      | float value =>
          obtain ⟨isFinite, ⟨⟩⟩ := Option.ite_none_right_eq_some.mp isLiteral
          exact ⟨by simp [Literal.toJson, ofFloat?, isFinite],
            by simp [same, Number.same, Double.beq_self isFinite]⟩
  | string value =>
      obtain ⟨_, ⟨⟩⟩ := Option.ite_none_left_eq_some.mp isLiteral
      exact ⟨by rw [Literal.toJson], by simp [same]⟩
  | array items =>
      cases room with
      | zero => cases isLiteral
      | succ room =>
          obtain ⟨literals, areLiterals, rfl⟩ := Option.map_eq_some_iff.mp isLiteral
          obtain ⟨areItems, alike⟩ := itemsToJson_literals items areLiterals valueOf
          exact ⟨by rw [Literal.toJson, areItems]; rfl, by rw [same, alike]⟩
  | object fields =>
      cases room <;> cases fields <;> cases isLiteral
      exact ⟨by simp [Literal.ofFields, Literal.toJson, Literal.fieldsToJson],
        by simp [same, sameFields]⟩

private theorem itemsToJson_literals {room : Nat} (values : List Json) {literals : List Literal}
    (areLiterals : itemLiterals? values room = some literals) (valueOf : String → Option Json) :
    Literal.itemsToJson valueOf literals = .ok values ∧ sameItems values values = true := by
  cases values with
  | nil =>
      cases areLiterals
      exact ⟨by rw [Literal.itemsToJson], by rw [sameItems]⟩
  | cons head tail =>
      rw [itemLiterals?] at areLiterals
      obtain ⟨first, isFirst, areLiterals⟩ := Option.bind_eq_some_iff.mp areLiterals
      obtain ⟨others, areOthers, ⟨⟩⟩ := Option.bind_eq_some_iff.mp areLiterals
      obtain ⟨isHead, headAlike⟩ := toJson_literal head isFirst valueOf
      obtain ⟨areTail, tailAlike⟩ := itemsToJson_literals tail areOthers valueOf
      exact ⟨by rw [Literal.itemsToJson, isHead, areTail]; rfl,
        by rw [sameItems, headAlike, tailAlike]; rfl⟩

end

end Json

namespace Scalar

/-- The constant that is printed for what a scalar makes of an input is parsed to it again. -/
private def ReadsBack (scalar : ScalarShape) : Prop :=
  ∀ (input : RawInput) value, input.parse scalar = .ok value → ∀ room literal,
    value.literal? room = some literal → scalar.parseLiteral literal = .ok value

private theorem int_readsBack : ReadsBack int := by
  intro input value parsed room literal isLiteral
  obtain ⟨number, rfl, fits⟩ := int_parse parsed
  obtain ⟨_, ⟨⟩⟩ := Option.ite_none_right_eq_some.mp isLiteral
  simp [int, fits]

private theorem finite_eq_ok {value : Float} {json : Json} (isFinite : finite value = .ok json) :
    json = .number (.float value) := by
  rw [finite, Json.ofFloat?] at isFinite
  split at isFinite
  · rename_i given
    obtain ⟨_, ⟨⟩⟩ := Option.ite_none_right_eq_some.mp given
    cases isFinite
    rfl
  · cases isFinite

private theorem float_readsBack : ReadsBack float := by
  intro input value parsed room literal isLiteral
  obtain ⟨double, isFinite⟩ := float_parse parsed
  rw [finite_eq_ok isFinite] at isLiteral
  obtain ⟨_, ⟨⟩⟩ := Option.ite_none_right_eq_some.mp isLiteral
  exact isFinite

private theorem string_readsBack : ReadsBack string := by
  intro input value parsed room literal isLiteral
  obtain ⟨text, rfl⟩ := string_parse parsed
  obtain ⟨_, ⟨⟩⟩ := Option.ite_none_left_eq_some.mp isLiteral
  rfl

private theorem boolean_readsBack : ReadsBack boolean := by
  intro input value parsed room literal isLiteral
  obtain ⟨flag, rfl⟩ := boolean_parse parsed
  cases isLiteral
  rfl

private theorem id_readsBack : ReadsBack id := by
  intro input value parsed room literal isLiteral
  obtain ⟨text, rfl⟩ := id_parse parsed
  obtain ⟨_, ⟨⟩⟩ := Option.ite_none_left_eq_some.mp isLiteral
  rfl

private theorem all_readBack {type : NamedType} (isBuiltIn : type ∈ all) {scalar : ScalarShape}
    (isScalar : type.shape = .scalar scalar) : ReadsBack scalar :=
  all_have string_readsBack int_readsBack float_readsBack
    boolean_readsBack id_readsBack isBuiltIn isScalar

/-- A scalar that takes anything makes null of null only. -/
theorem any_parsesValues {scalar : ScalarShape}
    (sameValue : scalar.parseValue = ScalarShape.any.parseValue)
    (sameLiteral : scalar.parseLiteral = ScalarShape.any.parseLiteral) : ParsesValues scalar := by
  intro input free notNull value parsed
  cases input with
  | json json =>
      rw [RawInput.parse, sameValue] at parsed
      cases parsed
      exact notNull
  | literal literal =>
      rw [RawInput.parse, sameLiteral] at parsed
      change literal.toJson (fun _ => none) = .ok value at parsed
      cases literal with
      | null => cases notNull
      | «variable» name => cases free
      | float double =>
          rw [Literal.toJson, Json.ofFloat?] at parsed
          split at parsed
          · rename_i given
            obtain ⟨_, ⟨⟩⟩ := Option.ite_none_right_eq_some.mp given
            cases parsed
            rfl
          · cases parsed
      | list items =>
          obtain ⟨values, _, isArray⟩ := bind_eq_ok_iff.mp parsed
          cases isArray
          rfl
      | object fields =>
          obtain ⟨values, _, isObject⟩ := bind_eq_ok_iff.mp parsed
          cases isObject
          rfl
      | _ =>
          cases parsed
          rfl

end Scalar

/-! ## Reading back -/

namespace Literal

private theorem value?_insertField (key name : String) (value : Literal)
    (fields : List (String × Literal)) :
    Named.value? (insertField (key, value) fields) name =
      if key = name then some value else Named.value? fields name := by
  induction fields with
  | nil => rw [insertField, Named.value?_cons]
  | cons head tail induction =>
      rw [insertField]
      split
      · rename_i same
        rw [Named.value?_cons, Named.value?_cons head.1 name head.2, ← same]
        split <;> rfl
      · split
        · rw [Named.value?_cons]
        · rename_i different _
          rw [Named.value?_cons head.1, Named.value?_cons head.1, induction]
          split
          · rename_i isHead
            rw [if_neg fun isKey => different (isKey.trans isHead.symm)]
          · rfl

private theorem value?_foldl_insertField {fields : List (String × Literal)}
    (distinct : (Named.names fields).Nodup) (sorted : List (String × Literal)) (name : String) :
    Named.value? (fields.foldl (fun sorted field => insertField field sorted) sorted) name =
      (Named.value? fields name).or (Named.value? sorted name) := by
  induction fields generalizing sorted with
  | nil => rfl
  | cons head tail induction =>
      obtain ⟨apart, distinct⟩ := List.nodup_cons.mp distinct
      rw [List.foldl_cons, induction distinct, value?_insertField,
        Named.value?_cons head.1 name head.2]
      split
      · rename_i isHead
        rw [Named.value?_eq_none.mpr (isHead ▸ apart)]
        rfl
      · rfl

end Literal

namespace Registry

variable {registry : Registry}

/-- A constant is coerced to the value at the type. -/
private def ReadsBack (registry : Registry) (type : TypeRef) (literal : Literal) (value : Json) :
    Prop :=
  ∃ again, registry.Coerces type (.literal literal) again ∧ again.same value = true

private theorem TakesAnything.readsBack (takes : registry.TakesAnything) {type : TypeRef}
    {named : NamedType} {shape : ScalarShape} {input : RawInput} {value : Json} {room : Nat}
    {literal : Literal} (resolved : registry.resolve? type = some named)
    (isScalar : named.shape = .scalar shape) (parsed : input.parse shape = .ok value)
    (isLiteral : value.literal? room = some literal) : shape.parseLiteral literal = .ok value := by
  by_cases isBuiltIn : named ∈ Scalar.all
  · exact Scalar.all_readBack isBuiltIn isScalar input value parsed room literal isLiteral
  · have same := takes named (Named.find?_mem resolved).1 isBuiltIn shape isScalar
    rw [same.2]
    exact (Json.toJson_literal value isLiteral _).1

/-- At a type without wrappers that is no input object, a value is printed as that of a leaf. -/
private theorem inputLiteral?_leaf {type : TypeRef} {value : Json} {room : Nat}
    (isBare : type.isBare = true) (notNull : value.isNull = false)
    (notObject : ∀ named definitions, registry.resolve? type = some named →
      named.shape ≠ .inputObject definitions) :
    registry.inputLiteral? type value room = registry.leafLiteral? type value room := by
  cases value with
  | null => cases notNull
  | array items =>
      have notList : type.listItem? = none := by cases type <;> first | rfl | cases isBare
      have isNullable : type.nullable = type := by cases type <;> first | rfl | cases isBare
      rw [inputLiteral?, notList]
      exact if_pos (by rw [isNullable, isBare])
  | object fields =>
      rw [inputLiteral?]
      split
      · rename_i definitions isObject
        obtain ⟨named, resolved, shape⟩ := Option.map_eq_some_iff.mp isObject
        exact absurd shape (notObject named definitions resolved)
      · rfl
  | _ => rw [inputLiteral?]

private theorem isNull_leafLiteral {type : TypeRef} {value : Json} {room : Nat} {literal : Literal}
    (notNull : value.isNull = false)
    (isLiteral : registry.leafLiteral? type value room = some literal) :
    literal.isNull = false := by
  rcases Grammar.leaf_cases isLiteral with ⟨_, _, _, _, _, _, _, isEnum⟩ | ⟨_, _, isJson⟩
  · obtain ⟨_, ⟨⟩⟩ := Option.ite_none_right_eq_some.mp isEnum
    rfl
  · exact (Json.isNull_literal isJson).trans notNull

private theorem isNull_inputLiteral {type : TypeRef} {value : Json} {room : Nat} {literal : Literal}
    (notNull : value.isNull = false)
    (isLiteral : registry.inputLiteral? type value room = some literal) :
    literal.isNull = false := by
  cases value with
  | null => cases notNull
  | array items =>
      rw [inputLiteral?] at isLiteral
      split at isLiteral
      · cases room with
        | zero => cases isLiteral
        | succ room =>
            obtain ⟨_, _, rfl⟩ := Option.map_eq_some_iff.mp isLiteral
            rfl
      · exact isNull_leafLiteral rfl (Option.ite_none_right_eq_some.mp isLiteral).2
  | object fields =>
      rw [inputLiteral?] at isLiteral
      split at isLiteral
      · cases room with
        | zero => cases isLiteral
        | succ room =>
            obtain ⟨_, _, rfl⟩ := Option.map_eq_some_iff.mp isLiteral
            rfl
      · exact isNull_leafLiteral rfl isLiteral
  | _ => exact isNull_leafLiteral rfl isLiteral

private theorem inputLiteral?_nonNull {inner : TypeRef} {value : Json} {room : Nat}
    {literal : Literal}
    (isLiteral : registry.inputLiteral? (.nonNull inner) value room = some literal) :
    registry.inputLiteral? inner value room = some literal := by
  cases value with
  | array items =>
      cases inner with
      | nonNull inner => cases isLiteral
      | _ => exact isLiteral
  | _ => exact isLiteral

private theorem reads_items {item : TypeRef} {values : List Json} {room : Nat}
    {literals : List Literal}
    (each : ∀ value ∈ values, ∀ literal, registry.inputLiteral? item value room = some literal →
      registry.ReadsBack item literal value)
    (areLiterals : registry.inputLiterals? item values room = some literals) :
    ∃ again, registry.CoercesItems item (literals.map .literal) again ∧
      Json.sameItems again values = true := by
  induction values generalizing literals with
  | nil =>
      cases areLiterals
      exact ⟨[], .nil, by rw [Json.sameItems]⟩
  | cons head tail induction =>
      rw [inputLiterals?] at areLiterals
      obtain ⟨first, isFirst, areLiterals⟩ := Option.bind_eq_some_iff.mp areLiterals
      obtain ⟨others, areOthers, ⟨⟩⟩ := Option.bind_eq_some_iff.mp areLiterals
      obtain ⟨isHead, areTail⟩ := List.forall_mem_cons.mp each
      obtain ⟨again, coerced, alike⟩ := isHead first isFirst
      obtain ⟨others, coercedOthers, othersAlike⟩ := induction areTail areOthers
      exact ⟨again :: others, .cons coerced coercedOthers,
        by rw [Json.sameItems, alike, othersAlike]; rfl⟩

private theorem names_fieldLiterals {definitions : List InputValueDefinition}
    {entries : List (String × Json)} {room : Nat} {literals : List (String × Literal)}
    (areLiterals : registry.fieldLiterals? definitions entries room = some literals) :
    Named.names literals = Named.names entries := by
  induction entries generalizing literals with
  | nil =>
      cases areLiterals
      rfl
  | cons head tail induction =>
      obtain ⟨name, value⟩ := head
      rw [fieldLiterals?] at areLiterals
      obtain ⟨first, isFirst, areLiterals⟩ := Option.bind_eq_some_iff.mp areLiterals
      obtain ⟨others, areOthers, areLiterals⟩ := Option.bind_eq_some_iff.mp areLiterals
      obtain ⟨isName, ⟨⟩⟩ := Option.ite_none_right_eq_some.mp areLiterals
      exact congrArg (name :: ·) (induction areOthers)

/-- The constant that is printed for a value is coerced to it. -/
private def Returns (registry : Registry) (type : TypeRef) (value : Json) : Prop :=
  ∀ room literal, registry.inputLiteral? type value room = some literal →
    registry.ReadsBack type literal value

private theorem returns_null {type : TypeRef} (mayBeNull : type.isNonNull = false) :
    registry.Returns type .null := by
  intro room literal isLiteral
  rw [inputLiteral?] at isLiteral
  cases isLiteral
  exact ⟨.null, .null rfl mayBeNull, by rw [Json.same]⟩

private theorem returns_nonNull {inner : TypeRef} {value : Json} (notNull : value.isNull = false)
    (inside : registry.Returns inner value) : registry.Returns (.nonNull inner) value := by
  intro room literal isLiteral
  obtain ⟨again, coerced, alike⟩ := inside room literal (inputLiteral?_nonNull isLiteral)
  exact ⟨again, .nonNull (isNull_inputLiteral notNull isLiteral) coerced, alike⟩

private theorem returns_list {item : TypeRef} {values : List Json}
    (each : ∀ value ∈ values, registry.Returns item value) :
    registry.Returns (.list item) (.array values) := by
  intro room literal isLiteral
  cases room with
  | zero => cases isLiteral
  | succ room =>
      obtain ⟨literals, areLiterals, rfl⟩ := Option.map_eq_some_iff.mp isLiteral
      obtain ⟨again, coerced, alike⟩ :=
        reads_items (fun value member => each value member room) areLiterals
      exact ⟨.array again, .list rfl coerced, by rw [Json.same, alike]⟩

private theorem returns_scalar (takes : registry.TakesAnything) {type : TypeRef} {named : NamedType}
    {shape : ScalarShape} {input : RawInput} {value : Json} (isBare : type.isBare = true)
    (resolved : registry.resolve? type = some named) (isScalar : named.shape = .scalar shape)
    (parsed : input.parse shape = .ok value) : registry.Returns type value := by
  intro room literal isLiteral
  cases isNull : value.isNull with
  | true =>
      obtain rfl := Json.eq_null isNull
      refine returns_null ?_ room literal isLiteral
      cases type <;> first | rfl | cases isBare
  | false =>
      rw [inputLiteral?_leaf isBare isNull] at isLiteral
      · rcases Grammar.leaf_cases isLiteral with ⟨other, values, _, isOther, isEnum, _⟩ |
          ⟨_, _, isJson⟩
        · rw [resolved] at isOther
          cases isOther
          rw [isScalar] at isEnum
          cases isEnum
        · have notNull := (Json.isNull_literal isJson).trans isNull
          exact ⟨value, .scalar isBare notNull resolved isScalar
            (takes.readsBack resolved isScalar parsed isJson),
            (Json.toJson_literal value isJson fun _ => none).2⟩
      · intro other definitions isOther isObject
        rw [resolved] at isOther
        cases isOther
        rw [isScalar] at isObject
        cases isObject

private theorem returns_enum (distinct : registry.DistinctMembers) {type : TypeRef}
    {named : NamedType} {values : List EnumValueDefinition} (isBare : type.isBare = true)
    (resolved : registry.resolve? type = some named) (isEnum : named.shape = .enum values)
    (value : Json) : registry.Returns type value := by
  intro room literal isLiteral
  cases isNull : value.isNull with
  | true =>
      obtain rfl := Json.eq_null isNull
      refine returns_null ?_ room literal isLiteral
      cases type <;> first | rfl | cases isBare
  | false =>
      rw [inputLiteral?_leaf isBare isNull] at isLiteral
      · rcases Grammar.leaf_cases isLiteral with
          ⟨other, others, name, isOther, areOthers, isName, _, isNamed⟩ | ⟨notEnum, _⟩
        · rw [resolved] at isOther
          cases isOther
          rw [isEnum] at areOthers
          cases areOthers
          obtain ⟨definition, found, rfl⟩ := Option.map_eq_some_iff.mp isName
          obtain ⟨_, ⟨⟩⟩ := Option.ite_none_right_eq_some.mp isNamed
          have names := distinct.values named (Named.find?_mem resolved).1 values isEnum
          have declared : EnumValueDefinition.parseName? values definition.name =
              some definition.value :=
            congrArg (Option.map EnumValueDefinition.value)
              (Named.find?_of_mem names (List.mem_of_find?_eq_some found))
          have alike : definition.value.same value = true :=
            List.find?_some (p := fun other : EnumValueDefinition => other.value.same value) found
          exact ⟨definition.value, .enum isBare resolved isEnum rfl declared, alike⟩
        · exact absurd isEnum (notEnum named values resolved)
      · intro other definitions isOther isObject
        rw [resolved] at isOther
        cases isOther
        rw [isEnum] at isObject
        cases isObject

/-- The fields that are printed for entries are coerced to them, in any object in which the
definitions find just these fields. -/
private def ReturnsFields (registry : Registry) (definitions : List InputValueDefinition)
    (entries : List (String × Json)) : Prop :=
  (Named.names entries).Sublist (Named.names definitions) ∧
    ∀ all room literals (source : List (String × RawInput)), (Named.names definitions).Nodup →
      (∀ definition ∈ definitions, Named.find? all definition.name = some definition) →
      registry.fieldLiterals? all entries room = some literals →
      (∀ definition ∈ definitions, Named.value? source definition.name =
        (Named.value? literals definition.name).map .literal) →
      ∃ again, registry.CoercesFields source definitions again ∧
        List.Forall₂ (fun left right => left.1 = right.1 ∧ left.2.same right.2 = true)
          again entries

private theorem returnsFields_nil : registry.ReturnsFields [] [] :=
  ⟨.slnil, fun _ _ _ _ _ _ _ _ => ⟨[], .nil, .nil⟩⟩

private theorem returnsFields_present {definition : InputValueDefinition}
    {definitions : List InputValueDefinition} {value : Json} {entries : List (String × Json)}
    (inside : registry.Returns definition.type value)
    (later : registry.ReturnsFields definitions entries) :
    registry.ReturnsFields (definition :: definitions) ((definition.name, value) :: entries) := by
  refine ⟨later.1.cons_cons _, ?_⟩
  intro all room literals source names known areLiterals given
  obtain ⟨apart, names⟩ := List.nodup_cons.mp names
  obtain ⟨isKnown, known⟩ := List.forall_mem_cons.mp known
  obtain ⟨isGiven, given⟩ := List.forall_mem_cons.mp given
  rw [fieldLiterals?, isKnown] at areLiterals
  obtain ⟨first, isFirst, areLiterals⟩ := Option.bind_eq_some_iff.mp areLiterals
  obtain ⟨others, areOthers, areLiterals⟩ := Option.bind_eq_some_iff.mp areLiterals
  obtain ⟨isName, ⟨⟩⟩ := Option.ite_none_right_eq_some.mp areLiterals
  obtain ⟨again, coerced, alike⟩ := inside room first isFirst
  rw [Named.value?_cons, if_pos rfl] at isGiven
  obtain ⟨agains, coercedLater, alikeLater⟩ := later.2 all room others source names known areOthers
    fun other member => by
      have different : definition.name ≠ other.name := fun same =>
        apart (List.mem_map.mpr ⟨other, member, same.symm⟩)
      rw [given other member, Named.value?_cons, if_neg different]
  exact ⟨(definition.name, again) :: agains, .given isGiven coerced coercedLater,
    .cons ⟨rfl, alike⟩ alikeLater⟩

private theorem returnsFields_missing {definition : InputValueDefinition}
    {definitions : List InputValueDefinition} {entries : List (String × Json)}
    (noDefault : definition.default = none) (mayBeNull : definition.type.isNonNull = false)
    (later : registry.ReturnsFields definitions entries) :
    registry.ReturnsFields (definition :: definitions) entries := by
  refine ⟨later.1.cons _, ?_⟩
  intro all room literals source names known areLiterals given
  obtain ⟨apart, names⟩ := List.nodup_cons.mp names
  obtain ⟨isKnown, known⟩ := List.forall_mem_cons.mp known
  obtain ⟨isGiven, given⟩ := List.forall_mem_cons.mp given
  obtain ⟨agains, coercedLater, alikeLater⟩ :=
    later.2 all room literals source names known areLiterals given
  have absent : Named.value? literals definition.name = none := by
    rw [Named.value?_eq_none, names_fieldLiterals areLiterals]
    exact fun member => apart (later.1.subset member)
  rw [absent] at isGiven
  exact ⟨agains, .leftOut isGiven noDefault mayBeNull coercedLater, alikeLater⟩

private theorem sameFields_of_forall {entries : List (String × Json)}
    (distinct : (Named.names entries).Nodup) {again fields : List (String × Json)}
    (listed : ∀ entry ∈ fields, entry ∈ entries)
    (alike : List.Forall₂ (fun left right => left.1 = right.1 ∧ left.2.same right.2 = true)
      again fields) : Json.sameFields again entries = true := by
  induction alike with
  | nil => rw [Json.sameFields]
  | @cons left right lefts rights same _ induction =>
      obtain ⟨isListed, areListed⟩ := List.forall_mem_cons.mp listed
      obtain ⟨name, value⟩ := left
      obtain ⟨_, other⟩ := right
      obtain ⟨rfl, same⟩ := same
      rw [Json.sameFields, Named.value?_of_mem distinct isListed, induction areListed]
      simpa using same

private theorem returns_object (distinct : registry.DistinctMembers) {type : TypeRef}
    {named : NamedType} {definitions : List InputValueDefinition} {entries : List (String × Json)}
    (isBare : type.isBare = true) (resolved : registry.resolve? type = some named)
    (isObject : named.shape = .inputObject definitions)
    (each : registry.ReturnsFields definitions entries) :
    registry.Returns type (.object entries) := by
  have names := distinct.fields named (Named.find?_mem resolved).1 definitions isObject
  have shape : (registry.resolve? type).map NamedType.shape = some (.inputObject definitions) := by
    rw [resolved, Option.map_some, isObject]
  intro room literal isLiteral
  rw [inputLiteral?, shape] at isLiteral
  cases room with
  | zero => cases isLiteral
  | succ room =>
      obtain ⟨literals, areLiterals, rfl⟩ := Option.map_eq_some_iff.mp isLiteral
      have sameNames := names_fieldLiterals areLiterals
      have literalNames : (Named.names literals).Nodup := sameNames ▸ each.1.nodup names
      obtain ⟨sorted, isSorted⟩ : ∃ sorted, sorted =
          literals.foldl (fun sorted field => Literal.insertField field sorted) [] := ⟨_, rfl⟩
      have found (name : String) : Named.value? sorted name = Named.value? literals name := by
        rw [isSorted, Literal.value?_foldl_insertField literalNames]
        exact Option.or_none
      have foundInput (name : String) : Named.value?
          (sorted.map fun field => (field.1, RawInput.literal field.2)) name =
            (Named.value? literals name).map .literal := by
        rw [← found, Named.value?_map fun _ => RawInput.literal]
      obtain ⟨again, coerced, alike⟩ := each.2 definitions room literals _ names
        (fun definition => Named.find?_of_mem names) areLiterals fun definition _ =>
          foundInput definition.name
      have known :
          ∀ name ∈ Named.names (sorted.map fun field => (field.1, RawInput.literal field.2)),
            Named.contains definitions name = true := by
        intro name member
        have listed : name ∈ Named.names literals := by
          by_contra absent
          have none := foundInput name
          rw [Named.value?_eq_none.mpr absent] at none
          exact Named.value?_eq_none.mp none member
        rw [sameNames] at listed
        obtain ⟨definition, isListed, rfl⟩ := List.mem_map.mp (each.1.subset listed)
        exact List.any_eq_true.mpr ⟨definition, isListed, by simp⟩
      refine ⟨.object again, ?_, ?_⟩
      · rw [Literal.ofFields, ← isSorted]
        exact .object isBare resolved isObject rfl known coerced
      · have inPlace := sameFields_of_forall (each.1.nodup names) (fun _ => id) alike
        rw [Json.same, inPlace, alike.length_eq]
        simp

private theorem Conforms.returns (takes : registry.TakesAnything)
    (distinct : registry.DistinctMembers)
    {type : TypeRef} {value : Json} (conforms : registry.Conforms type value) :
    registry.Returns type value :=
  @Conforms.rec registry (fun type value _ => registry.Returns type value)
    (fun definitions entries _ => registry.ReturnsFields definitions entries) returns_null
    (fun notNull _ inside => returns_nonNull notNull inside) (fun _ each => returns_list each)
    (fun isBare resolved isScalar _ _ parsed _ =>
      returns_scalar takes isBare resolved isScalar parsed)
    (fun isBare resolved isEnum _ => returns_enum distinct isBare resolved isEnum _)
    (fun isBare resolved isObject _ each => returns_object distinct isBare resolved isObject each)
    returnsFields_nil (fun _ _ inside later => returnsFields_present inside later)
    (fun noDefault mayBeNull _ later => returnsFields_missing noDefault mayBeNull later) type value
    conforms

end Registry

/-- A value of a type is printed as the text of a constant, and that is coerced to the same value,
if all that is printed as JSON spells constants. What inputs without variables are coerced to is
such a value. The objects of scalars are printed as JSON; with a key they are not read back. -/
theorem printInput_reads_back (schema : Schema) (registry : Registry)
    (built : schema.build = .ok registry) (takes : registry.TakesAnything)
    (distinct : registry.DistinctMembers) :
    (∀ type value literal, registry.Conforms type value →
      registry.inputLiteral? type value Token.maxOpen = some literal →
        Literal.ofText? (registry.printInput type value) = some literal ∧
          ∀ values?, ∃ again, registry.coerceLiteral values? literal type = .ok again ∧
            again.same value = true) ∧
    (registry.SoundInputs → ∀ type value,
      ((∃ json, registry.coerceValue json type = .ok value) ∨
        ∃ values? literal, literal.variableNames = [] ∧
          registry.coerceLiteral values? literal type = .ok value) →
      registry.Conforms type value) ∧
    ∀ type named shape key value fields, registry.resolve? type = some named →
      named.shape = .scalar shape →
        Literal.ofText? (registry.printInput type (.object ((key, value) :: fields))) = none := by
  refine ⟨?_, ?_, ?_⟩
  · intro type value literal conforms isLiteral
    have isText : Literal.ofText? (registry.printInput type value) = some literal :=
      (Grammar.spells_input value isLiteral (Nat.zero_add _).le).ofText?
    refine ⟨isText, fun values? => ?_⟩
    obtain ⟨again, coerced, alike⟩ := conforms.returns takes distinct _ literal isLiteral
    have free : (RawInput.literal literal).IsFree := Literal.free_of_text isText
    exact ⟨again, (RawInput.read_eq_ok free).mpr coerced, alike⟩
  · intro sound type value returned
    have ints := Registry.parsesInts_of_yields (Schema.build_yields built)
    have conforms : ∀ values? (input : RawInput), input.IsFree →
        input.read registry values? type = .ok value → registry.Conforms type value :=
      fun values? input free isRead =>
        Registry.Coerces.conforms sound ints ((RawInput.read_eq_ok free).mp isRead) free
    rcases returned with ⟨json, coerced⟩ | ⟨values?, literal, free, coerced⟩
    · exact conforms none (.json json) trivial coerced
    · exact conforms values? (.literal literal) free coerced
  · intro type named shape key value fields resolved isScalar
    have isJson : registry.printInput type (.object ((key, value) :: fields)) =
        Json.text (.object ((key, value) :: fields)) := by
      simp [Registry.printInput, Registry.printLeaf, resolved, isScalar]
    rw [isJson, Literal.ofText?_object]

namespace Ledger

def schema : Schema where
  pool := [kind, notes, entry, query]
  query := query.toInstance

private theorem built : schema.build = .ok registry := rfl

private theorem distinctMembers : registry.DistinctMembers :=
  Registry.distinctMembers_of (by decide) (by decide)

private theorem soundInputs : registry.SoundInputs := by
  have noDefault : ∀ type ∈ registry.types, ((type.inputFields?.getD []).all
      fun field => field.default.isNone) = true := List.all_eq_true.mp rfl
  have noNull : ∀ type ∈ registry.types, (((MetaObject.enumValues? type).getD []).all
      fun definition => !definition.value.isNull) = true := List.all_eq_true.mp rfl
  refine ⟨?_, ?_, ?_⟩
  · intro type listed fields isFields field member value isDefault
    have none := noDefault type listed
    rw [Option.mem_def.mp isFields] at none
    have none := List.all_eq_true.mp none field member
    rw [Option.mem_def.mp isDefault] at none
    cases none
  · intro type listed values isEnum definition declared
    have none := noNull type listed
    rw [MetaObject.enumValues?, isEnum] at none
    simpa using List.all_eq_true.mp none definition declared
  · intro type listed notBuiltIn shape isScalar
    have takes := takesAnything type listed notBuiltIn shape isScalar
    exact Scalar.any_parsesValues takes.1 takes.2

private def entered : Json :=
  .object [("notes", .array [.string "by hand", .number (.float 0.5)]), ("account", .int 7),
    ("amounts", .int 3), ("kind", .string "CREDIT")]

def posted : Json :=
  .object [("kind", .int 2), ("account", .string "7"), ("amounts", .array [.int 3]),
    ("notes", .array [.string "by hand", .number (.float 0.5)])]

private theorem entered_coerced : registry.coerceValue entered (.named "Entry") = .ok posted := rfl

private theorem posted_isLiteral :
    (registry.inputLiteral? (.named "Entry") posted Token.maxOpen).isSome = true := rfl

/-- Notes with a key. -/
def signed : Json := .object [("by", .string "hand")]

end Ledger

theorem printInput_reads_back_of_ledger :
    Ledger.schema.build = .ok Ledger.registry ∧
      Ledger.registry.Conforms (.named "Entry") Ledger.posted ∧
      (∃ literal, Literal.ofText? (Ledger.registry.printInput (.named "Entry") Ledger.posted) =
          some literal ∧
        ∃ again, Ledger.registry.coerceLiteral none literal (.named "Entry") = .ok again ∧
          again.same Ledger.posted = true) ∧
      Ledger.registry.coerceValue Ledger.signed (.named "Notes") = .ok Ledger.signed ∧
      Literal.ofText? (Ledger.registry.printInput (.named "Notes") Ledger.signed) = none := by
  have reads := printInput_reads_back Ledger.schema Ledger.registry Ledger.built
    Ledger.takesAnything Ledger.distinctMembers
  have conforms := reads.2.1 Ledger.soundInputs _ _ (.inl ⟨_, Ledger.entered_coerced⟩)
  obtain ⟨literal, isLiteral⟩ := Option.isSome_iff_exists.mp Ledger.posted_isLiteral
  obtain ⟨isText, back⟩ := reads.1 _ _ literal conforms isLiteral
  exact ⟨Ledger.built, conforms, ⟨literal, isText, back none⟩, rfl, reads.2.2 _ _ _ _ _ _ rfl rfl⟩

end GraphQL
