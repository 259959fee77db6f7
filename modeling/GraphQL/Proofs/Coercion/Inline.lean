import GraphQL.Proofs.Coercion.Relation
import GraphQL.Proofs.Schema.Scalars
import GraphQL.Schema.Directives
import GraphQL.Schema.Scalars

/-!
Values written inline and values passed as JSON. A literal without variables that is coerced stands
for a JSON value, and that is coerced to the same value, as far as the scalars read both alike. The
built-in scalars do, and so do those of the application that take anything.
-/

namespace GraphQL

namespace Literal

/-! ## Different keys -/

/-- A literal is another one, or somewhere inside it. -/
inductive Holds : Literal → Literal → Prop
  | self {literal : Literal} : Holds literal literal
  | item {items : List Literal} {item inner : Literal} (member : item ∈ items)
      (inside : Holds item inner) : Holds (.list items) inner
  | field {fields : List (String × Literal)} {field : String × Literal} {inner : Literal}
      (member : field ∈ fields) (inside : Holds field.2 inner) : Holds (.object fields) inner

/-- No object in a literal has two fields of one name. -/
def Distinct (literal : Literal) : Prop :=
  ∀ fields, literal.Holds (.object fields) → (Named.names fields).Nodup

private theorem Distinct.item {items : List Literal} (distinct : (Literal.list items).Distinct) :
    ∀ item ∈ items, item.Distinct :=
  fun _ member fields inside => distinct fields (.item member inside)

private theorem Distinct.field {fields : List (String × Literal)}
    (distinct : (Literal.object fields).Distinct) : ∀ field ∈ fields, field.2.Distinct :=
  fun _ member fields inside => distinct fields (.field member inside)

/-! ## The JSON value of a literal -/

variable {valueOf other : String → Option Json}

/-- The fields of an object read as their values do, one after the other. -/
theorem fieldsToJson_eq (fields : List (String × Literal)) :
    fieldsToJson valueOf fields =
      (itemsToJson valueOf (fields.map Prod.snd)).map (Named.names fields).zip := by
  induction fields with
  | nil => rfl
  | cons head tail induction =>
      rw [fieldsToJson, induction, List.map_cons, itemsToJson]
      cases head.2.toJson valueOf with
      | error error => rfl
      | ok value => cases itemsToJson valueOf (tail.map Prod.snd) <;> rfl

private theorem itemsToJson_congr {items : List Literal}
    (each : ∀ item ∈ items, item.toJson valueOf = item.toJson other) :
    itemsToJson valueOf items = itemsToJson other items := by
  induction items with
  | nil => rfl
  | cons head tail induction =>
      have parts := List.forall_mem_cons.mp each
      rw [itemsToJson, itemsToJson, parts.1, induction parts.2]

/-- Only the variables that occur in a literal matter, and what is unknown is as good as null. -/
theorem toJson_congr {literal : Literal}
    (agree : ∀ name ∈ literal.variableNames,
      (valueOf name).getD .null = (other name).getD .null) :
    literal.toJson valueOf = literal.toJson other := by
  induction literal using Literal.induct with
  | mentioned name => rw [toJson, toJson, agree name (List.mem_singleton.mpr rfl)]
  | list items each =>
      rw [variableNames, itemVariables_eq, List.forall_mem_flatMap] at agree
      rw [toJson, toJson, itemsToJson_congr fun item member => each item member (agree item member)]
  | object fields each =>
      rw [variableNames, fieldVariables_eq, List.forall_mem_flatMap] at agree
      rw [toJson, toJson, fieldsToJson_eq, fieldsToJson_eq, itemsToJson_congr]
      exact List.forall_mem_map.mpr fun field member => each field member (agree field member)
  | _ => rw [toJson, toJson]

def isVariable : Literal → Bool
  | .variable _ => true
  | _ => false

private theorem isVariable_of_free {literal : Literal} (free : literal.variableNames = []) :
    literal.isVariable = false := by
  cases literal with
  | «variable» name => cases free
  | _ => rfl

/-- A literal and its JSON value are both null or both not, and both lists or both not. -/
theorem toJson_kind {literal : Literal} {json : Json} (notVariable : literal.isVariable = false)
    (isJson : literal.toJson valueOf = .ok json) :
    json.isNull = literal.isNull ∧
      ((RawInput.literal literal).items? = none → (RawInput.json json).items? = none) := by
  cases literal with
  | «variable» name => cases notVariable
  | list items =>
      rw [toJson] at isJson
      rcases bind_eq_ok_iff.mp isJson with ⟨values, _, equal⟩
      cases equal
      exact ⟨rfl, nofun⟩
  | object fields =>
      rw [toJson] at isJson
      rcases bind_eq_ok_iff.mp isJson with ⟨values, _, equal⟩
      cases equal
      exact ⟨rfl, fun _ => rfl⟩
  | float value =>
      rw [toJson, Json.ofFloat?] at isJson
      split at isJson
      · rename_i given
        cases isJson
        split at given
        · cases given
          exact ⟨rfl, fun _ => rfl⟩
        · cases given
      · cases isJson
  | int | string | boolean | null | enum =>
      rw [toJson] at isJson
      cases isJson
      exact ⟨rfl, fun _ => rfl⟩

/-- An object has a JSON value if all its fields have one, and under every key is the value of what
is written there. -/
private theorem fieldsToJson_of_each {fields : List (String × Literal)}
    (each : ∀ field ∈ fields, ∃ json, field.2.toJson valueOf = .ok json) :
    ∃ jsons, fieldsToJson valueOf fields = .ok jsons ∧ Named.names jsons = Named.names fields ∧
      ∀ name literal, Named.value? fields name = some literal →
        ∃ json, literal.toJson valueOf = .ok json ∧ Named.value? jsons name = some json := by
  induction fields with
  | nil => exact ⟨[], rfl, rfl, nofun⟩
  | cons head tail induction =>
      rcases List.forall_mem_cons.mp each with ⟨⟨json, isJson⟩, rest⟩
      rcases induction rest with ⟨jsons, isJsons, sameNames, found⟩
      refine ⟨(head.1, json) :: jsons, ?_, congrArg (head.1 :: ·) sameNames, ?_⟩
      · rw [fieldsToJson, isJson, isJsons]
        rfl
      · intro name literal written
        rw [Named.value?_cons] at written ⊢
        by_cases same : head.1 = name
        · rw [if_pos same] at written ⊢
          cases written
          exact ⟨json, isJson, rfl⟩
        · rw [if_neg same] at written ⊢
          exact found name literal written

end Literal

/-! ## Scalars that read both alike -/

namespace Scalar

/-- What a literal is parsed to, its JSON value is parsed to. -/
private def ParsesAlike (scalar : ScalarShape) : Prop :=
  ∀ (valueOf : String → Option Json) (literal : Literal) (value : Json),
    literal.variableNames = [] → scalar.parseLiteral literal = .ok value →
      ∃ json, literal.toJson valueOf = .ok json ∧ scalar.parseValue json = .ok value

private theorem any_parsesAlike {scalar : ScalarShape}
    (sameValue : scalar.parseValue = ScalarShape.any.parseValue)
    (sameLiteral : scalar.parseLiteral = ScalarShape.any.parseLiteral) : ParsesAlike scalar := by
  intro valueOf literal value free parsed
  rw [sameLiteral] at parsed
  rw [sameValue]
  exact ⟨value, (Literal.toJson_congr (by simp [free])).trans parsed, rfl⟩

private theorem string_parsesAlike : ParsesAlike string := by
  intro valueOf literal value free parsed
  cases literal with
  | string text => exact ⟨.string text, rfl, parsed⟩
  | _ => cases parsed

private theorem int_parsesAlike : ParsesAlike int := by
  intro valueOf literal value free parsed
  cases literal with
  | int number =>
      refine ⟨.int number, rfl, ?_⟩
      simp only [int] at parsed
      split at parsed
      · rename_i fits
        cases parsed
        simp [int, Json.int, intNumber, int32?, fits]
      · cases parsed
  | _ => cases parsed

private theorem float_parsesAlike : ParsesAlike float := by
  intro valueOf literal value free parsed
  cases literal with
  | int number => exact ⟨.int number, rfl, parsed⟩
  | float number =>
      simp only [float, finite] at parsed
      split at parsed
      · rename_i json isFinite
        cases parsed
        refine ⟨value, by rw [Literal.toJson, isFinite], ?_⟩
        rw [Json.ofFloat?] at isFinite
        split at isFinite
        · rename_i known
          cases isFinite
          simp [float, finite, Number.toFloat, Json.ofFloat?, known]
        · cases isFinite
      · cases parsed
  | _ => cases parsed

private theorem boolean_parsesAlike : ParsesAlike boolean := by
  intro valueOf literal value free parsed
  cases literal with
  | boolean flag => exact ⟨.bool flag, rfl, parsed⟩
  | _ => cases parsed

private theorem id_parsesAlike : ParsesAlike id := by
  intro valueOf literal value free parsed
  cases literal with
  | string text => exact ⟨.string text, rfl, parsed⟩
  | int number => exact ⟨.int number, rfl, parsed⟩
  | _ => cases parsed

private theorem all_parseAlike {type : NamedType} (isBuiltIn : type ∈ all) {scalar : ScalarShape}
    (isScalar : type.shape = .scalar scalar) : ParsesAlike scalar :=
  all_have string_parsesAlike int_parsesAlike float_parsesAlike
    boolean_parsesAlike id_parsesAlike isBuiltIn isScalar

end Scalar

/-! ## The same value -/

namespace Registry

variable {registry : Registry}

/-- The scalars of the application take anything, as new scalars do. -/
def TakesAnything (registry : Registry) : Prop :=
  ∀ type ∈ registry.types, type ∉ Scalar.all → ∀ shape, type.shape = .scalar shape →
    shape.parseValue = ScalarShape.any.parseValue ∧
      shape.parseLiteral = ScalarShape.any.parseLiteral

/-- In a registry with the built-in and the meta types, other types decide. -/
theorem takesAnything_of {own : List NamedType}
    (isTypes : registry.types = Scalar.all ++ Meta.all ++ own)
    (each : ∀ type ∈ own, ∀ shape, type.shape = .scalar shape →
      shape.parseValue = ScalarShape.any.parseValue ∧
        shape.parseLiteral = ScalarShape.any.parseLiteral) : registry.TakesAnything := by
  intro type listed notBuiltIn shape isScalar
  have noScalar : ∀ other ∈ Meta.all, other.kind ≠ .scalar := by decide
  rw [isTypes] at listed
  rcases List.mem_append.mp listed with known | isOwn
  · rcases List.mem_append.mp known with builtIn | isMeta
    · exact absurd builtIn notBuiltIn
    · refine absurd ?_ (noScalar type isMeta)
      rw [NamedType.kind, isScalar]
  · exact each type isOwn shape isScalar

private theorem TakesAnything.scalar (takes : registry.TakesAnything) {type : TypeRef}
    {named : NamedType} {shape : ScalarShape} (resolved : registry.resolve? type = some named)
    (isScalar : named.shape = .scalar shape) : Scalar.ParsesAlike shape := by
  by_cases isBuiltIn : named ∈ Scalar.all
  · exact Scalar.all_parseAlike isBuiltIn isScalar
  · have same := takes named (Named.find?_mem resolved).1 isBuiltIn shape isScalar
    exact Scalar.any_parsesAlike same.1 same.2

/-- Whatever a literal is coerced to, its JSON value is coerced to. -/
private def Transfers (registry : Registry) (valueOf : String → Option Json) (literal : Literal) :
    Prop :=
  ∀ type value, registry.Coerces type (.literal literal) value →
    ∃ json, literal.toJson valueOf = .ok json ∧ registry.Coerces type (.json json) value

variable {valueOf : String → Option Json}

private theorem transfers_items {type : TypeRef} {items : List Literal} {values : List Json}
    (each : ∀ item ∈ items, registry.Transfers valueOf item)
    (coerces : registry.CoercesItems type (items.map .literal) values) :
    ∃ jsons, Literal.itemsToJson valueOf items = .ok jsons ∧
      registry.CoercesItems type (jsons.map .json) values := by
  induction items generalizing values with
  | nil =>
      cases coerces
      exact ⟨[], rfl, .nil⟩
  | cons head tail induction =>
      have parts := List.forall_mem_cons.mp each
      cases coerces with
      | cons first rest =>
          rcases parts.1 type _ first with ⟨json, isJson, coerced⟩
          rcases induction parts.2 rest with ⟨jsons, areJsons, allCoerced⟩
          refine ⟨json :: jsons, ?_, .cons coerced allCoerced⟩
          rw [Literal.itemsToJson, isJson, areJsons]
          rfl

private theorem value?_literals (fields : List (String × Literal)) (name : String) :
    Named.value? (fields.map fun field => (field.1, RawInput.literal field.2)) name =
      (Named.value? fields name).map .literal :=
  Named.value?_map (fun _ => RawInput.literal) fields name

private theorem value?_jsons (fields : List (String × Json)) (name : String) :
    Named.value? (fields.map fun field => (field.1, RawInput.json field.2)) name =
      (Named.value? fields name).map .json :=
  Named.value?_map (fun _ => RawInput.json) fields name

/-- What definitions find has a JSON value. -/
private theorem exists_json_of_found {fields : List (String × Literal)}
    {definitions : List InputValueDefinition} {entries : List (String × Json)}
    (each : ∀ field ∈ fields, registry.Transfers valueOf field.2)
    (coerces : registry.CoercesFields (fields.map fun field => (field.1, .literal field.2))
      definitions entries) :
    ∀ definition ∈ definitions, ∀ literal, Named.value? fields definition.name = some literal →
      ∃ json, literal.toJson valueOf = .ok json := by
  induction definitions generalizing entries with
  | nil => exact nofun
  | cons definition definitions induction =>
      cases coerces with
      | given isGiven coerced later =>
          refine List.forall_mem_cons.mpr ⟨fun literal written => ?_, induction later⟩
          rw [value?_literals, written] at isGiven
          cases isGiven
          rcases each _ (Named.value?_mem written) _ _ coerced with ⟨json, isJson, _⟩
          exact ⟨json, isJson⟩
      | default absent _ later | leftOut absent _ _ later =>
          refine List.forall_mem_cons.mpr ⟨fun literal written => ?_, induction later⟩
          rw [value?_literals, written] at absent
          cases absent

/-- With the JSON values of fields in their place definitions find the same entries. -/
private theorem transfers_fields {fields : List (String × Literal)} {jsons : List (String × Json)}
    {definitions : List InputValueDefinition} {entries : List (String × Json)}
    (each : ∀ field ∈ fields, registry.Transfers valueOf field.2)
    (sameNames : Named.names jsons = Named.names fields)
    (found : ∀ name literal, Named.value? fields name = some literal →
      ∃ json, literal.toJson valueOf = .ok json ∧ Named.value? jsons name = some json)
    (coerces : registry.CoercesFields (fields.map fun field => (field.1, .literal field.2))
      definitions entries) :
    registry.CoercesFields (jsons.map fun field => (field.1, .json field.2)) definitions
      entries := by
  have stillAbsent : ∀ name,
      Named.value? (fields.map fun field => (field.1, RawInput.literal field.2)) name = none →
        Named.value? (jsons.map fun field => (field.1, RawInput.json field.2)) name = none := by
    intro name absent
    rw [value?_literals, Option.map_eq_none_iff, Named.value?_eq_none] at absent
    rw [value?_jsons, Option.map_eq_none_iff, Named.value?_eq_none, sameNames]
    exact absent
  induction definitions generalizing entries with
  | nil =>
      cases coerces
      exact .nil
  | cons definition definitions induction =>
      cases coerces with
      | given isGiven coerced later =>
          rw [value?_literals] at isGiven
          rcases Option.map_eq_some_iff.mp isGiven with ⟨literal, written, rfl⟩
          rcases found _ _ written with ⟨json, isJson, stored⟩
          rcases each _ (Named.value?_mem written) _ _ coerced with ⟨same, isSame, alsoCoerced⟩
          rw [isJson] at isSame
          cases isSame
          exact .given (by rw [value?_jsons, stored, Option.map_some]) alsoCoerced (induction later)
      | default absent isDefault later =>
          exact .default (stillAbsent _ absent) isDefault (induction later)
      | leftOut absent noDefault mayBeNull later =>
          exact .leftOut (stillAbsent _ absent) noDefault mayBeNull (induction later)

/-- Wrappers ask the same of a literal and of its JSON value. -/
private theorem transfers_of_bare {literal : Literal} (free : literal.variableNames = [])
    (items : ∀ items, literal = .list items → ∀ item ∈ items, registry.Transfers valueOf item)
    (bare : ∀ type value, type.isBare = true → (RawInput.literal literal).isNull = false →
      registry.Coerces type (.literal literal) value →
        ∃ json, literal.toJson valueOf = .ok json ∧ registry.Coerces type (.json json) value) :
    registry.Transfers valueOf literal := by
  intro type
  cases isNull : (RawInput.literal literal).isNull with
  | true =>
      intro value coerces
      rcases coerces.eq_null isNull with ⟨rfl, mayBeNull⟩
      rw [Literal.eq_null isNull]
      exact ⟨.null, by rw [Literal.toJson], .null rfl mayBeNull⟩
  | false =>
      induction type with
      | named | direct | deferred => exact fun value => bare _ value rfl isNull
      | nonNull inner induction =>
          intro value coerces
          rcases induction value ((coerces_nonNull isNull).mp coerces) with ⟨json, isJson, inside⟩
          have sameNull := (Literal.toJson_kind (Literal.isVariable_of_free free) isJson).1
          exact ⟨json, isJson, .nonNull (sameNull.trans isNull) inside⟩
      | list item induction =>
          intro value coerces
          cases isList : (RawInput.literal literal).items? with
          | none =>
              rcases (coerces_single isNull isList).mp coerces with ⟨only, inside, rfl⟩
              rcases induction only inside with ⟨json, isJson, alsoInside⟩
              have sameKind := Literal.toJson_kind (Literal.isVariable_of_free free) isJson
              exact ⟨json, isJson,
                .single (sameKind.1.trans isNull) (sameKind.2 isList) alsoInside⟩
          | some inputs =>
              rcases (coerces_list isList).mp coerces with ⟨values, each, rfl⟩
              cases literal with
              | list literals =>
                  cases isList
                  rcases transfers_items (items literals rfl) each with ⟨jsons, areJsons, coerced⟩
                  refine ⟨.array jsons, ?_, .list rfl coerced⟩
                  rw [Literal.toJson, areJsons]
                  rfl
              | _ => cases isList

private theorem transfers_object {fields : List (String × Literal)} {type : TypeRef}
    {named : NamedType} {definitions : List InputValueDefinition} {entries : List (String × Json)}
    (distinct : (Named.names fields).Nodup)
    (each : ∀ field ∈ fields, registry.Transfers valueOf field.2) (isBare : type.isBare = true)
    (resolved : registry.resolve? type = some named)
    (isObject : named.shape = .inputObject definitions)
    (known : ∀ name ∈ Named.names (fields.map fun field => (field.1, RawInput.literal field.2)),
      Named.contains definitions name = true)
    (coerces : registry.CoercesFields (fields.map fun field => (field.1, .literal field.2))
      definitions entries) :
    ∃ json, (Literal.object fields).toJson valueOf = .ok json ∧
      registry.Coerces type (.json json) (.object entries) := by
  have names : ∀ {α : Type} (list : List (String × α)) (make : α → RawInput),
      Named.names (list.map fun field => (field.1, make field.2)) = Named.names list := by
    intro α list make
    rw [Named.names, List.map_map]
    rfl
  rw [names] at known
  have exist : ∀ field ∈ fields, ∃ json, field.2.toJson valueOf = .ok json := by
    intro field listed
    rcases List.any_eq_true.mp (known field.1 (List.mem_map_of_mem listed)) with
      ⟨definition, member, sameName⟩
    refine exists_json_of_found each coerces definition member field.2 ?_
    have isName : definition.name = field.1 := beq_iff_eq.mp sameName
    rw [isName]
    exact Named.value?_of_mem distinct listed
  rcases Literal.fieldsToJson_of_each exist with ⟨jsons, areJsons, sameNames, found⟩
  refine ⟨.object jsons, ?_, ?_⟩
  · rw [Literal.toJson, areJsons]
    rfl
  · refine .object isBare resolved isObject rfl ?_ (transfers_fields each sameNames found coerces)
    rw [names, sameNames]
    exact known

/-- Without wrappers a literal is read by a scalar, as the name of an enum value, or as an object. -/
private theorem transfers_bare (takes : registry.TakesAnything) {literal : Literal}
    (free : literal.variableNames = []) (distinct : literal.Distinct)
    (fields : ∀ fields, literal = .object fields →
      ∀ field ∈ fields, registry.Transfers valueOf field.2)
    {type : TypeRef} {value : Json} (isBare : type.isBare = true)
    (notNull : (RawInput.literal literal).isNull = false)
    (coerces : registry.Coerces type (.literal literal) value) :
    ∃ json, literal.toJson valueOf = .ok json ∧ registry.Coerces type (.json json) value := by
  cases coerces with
  | null isNull =>
      rw [notNull] at isNull
      cases isNull
  | nonNull | list | single => cases isBare
  | scalar _ _ resolved isScalar parsed =>
      rcases takes.scalar resolved isScalar valueOf literal value free parsed with
        ⟨json, isJson, alsoParsed⟩
      have sameNull := (Literal.toJson_kind (Literal.isVariable_of_free free) isJson).1
      exact ⟨json, isJson, .scalar isBare (sameNull.trans notNull) resolved isScalar alsoParsed⟩
  | enum _ resolved isEnum isName declared =>
      cases literal with
      | enum name =>
          exact ⟨.string name, by rw [Literal.toJson], .enum isBare resolved isEnum isName declared⟩
      | _ => cases isName
  | object _ resolved isObject isFields known each =>
      cases literal with
      | object given =>
          cases isFields
          exact transfers_object (distinct given .self) (fields given rfl) isBare resolved isObject
            known each
      | _ => cases isFields

private theorem transfers (takes : registry.TakesAnything) {literal : Literal}
    (free : literal.variableNames = []) (distinct : literal.Distinct) :
    registry.Transfers valueOf literal := by
  induction literal using Literal.induct with
  | mentioned name => cases free
  | list items each =>
      have parts : ∀ item ∈ items, registry.Transfers valueOf item := fun item member =>
        each item member (RawInput.items_of_free free item member) (distinct.item item member)
      exact transfers_of_bare free (fun _ same => Literal.list.inj same ▸ parts)
        fun _ _ => transfers_bare takes free distinct nofun
  | object fields each =>
      have parts : ∀ field ∈ fields, registry.Transfers valueOf field.2 := fun field member =>
        each field member (RawInput.fields_of_free free field member) (distinct.field field member)
      exact transfers_of_bare free nofun
        fun _ _ => transfers_bare takes free distinct fun _ same => Literal.object.inj same ▸ parts
  | _ => exact transfers_of_bare free nofun fun _ _ => transfers_bare takes free distinct nofun

end Registry

/-- A literal without variables that is coerced has a JSON value, and that is coerced to the same
value. The variables of a request make no difference. -/
theorem coerceValue_of_coerceLiteral (registry : Registry) (takes : registry.TakesAnything)
    (values? others? : Option Variables) (type : TypeRef) (literal : Literal) (value : Json)
    (free : literal.variableNames = []) (distinct : literal.Distinct)
    (coerced : registry.coerceLiteral values? literal type = .ok value) :
    ∃ json, literal.valueWith others? = .ok json ∧ registry.coerceValue json type = .ok value := by
  have coerces : registry.Coerces type (.literal literal) value :=
    (RawInput.reads_literal values? literal free type value).mp coerced
  rcases Registry.transfers takes free distinct type value coerces with ⟨json, isJson, alsoCoerces⟩
  exact ⟨json, isJson, (RawInput.reads_json none json type value).mpr alsoCoerces⟩

namespace Ledger

/-! Entries have an account, a kind, amounts, and notes of any form. -/

def kind : NamedType where
  key := .custom 0
  name := "Kind"
  shape := .enum [{ name := "DEBIT", value := .int 1 }, { name := "CREDIT", value := .int 2 }]

def notes : NamedType where
  key := .custom 1
  name := "Notes"
  shape := .scalar .any

def entry : NamedType where
  key := .custom 2
  name := "Entry"
  shape := .inputObject
    [{ name := "kind", type := .nonNull (.direct kind.toInstance) },
      { name := "account", type := .nonNull (.named "ID") },
      { name := "amounts", type := .list (.nonNull (.named "Int")) },
      { name := "notes", type := .direct notes.toInstance }]

def query : NamedType where
  key := .custom 3
  name := "Query"
  shape := .object
    { fields := [{ name := "post", type := .named "Boolean",
                   arguments := [{ name := "entry", type := .direct entry.toInstance }] }] }

def registry : Registry where
  types := Scalar.all ++ Meta.all ++ [query, entry, kind, notes]
  query := query
  mutation := none
  subscription := none
  directives := DirectiveDefinition.builtIn
  possibleTypes := []

theorem takesAnything : registry.TakesAnything := by
  refine Registry.takesAnything_of rfl fun type listed shape isScalar => ?_
  simp only [List.mem_cons, List.not_mem_nil, or_false] at listed
  rcases listed with rfl | rfl | rfl | rfl <;> cases isScalar
  exact ⟨rfl, rfl⟩

/-- The fields are sorted, and enum values are names. -/
def written : Literal :=
  .object [("account", .int 7), ("amounts", .int 3), ("kind", .enum "CREDIT"),
    ("notes", .object [("by", .enum "HAND")])]

private theorem written_distinct : written.Distinct := by
  intro fields inside
  cases inside with
  | self => decide
  | field member inside =>
      simp only [List.mem_cons, List.not_mem_nil, or_false] at member
      rcases member with rfl | rfl | rfl | rfl
      · cases inside
      · cases inside
      · cases inside
      · cases inside with
        | self => decide
        | field member inside =>
            rw [List.mem_singleton.mp member] at inside
            cases inside

private theorem written_coerced :
    registry.coerceLiteral none written (.list (.named "Entry")) =
      .ok (.array [.object [("kind", .int 2), ("account", .string "7"), ("amounts", .array [.int 3]),
        ("notes", .object [("by", .string "HAND")])]]) := by
  rfl

end Ledger

theorem coerceValue_of_coerceLiteral_of_ledger :
    ∃ json, Ledger.written.valueWith none = .ok json ∧
      Ledger.registry.coerceValue json (.list (.named "Entry")) =
        .ok (.array [.object [("kind", .int 2), ("account", .string "7"),
          ("amounts", .array [.int 3]), ("notes", .object [("by", .string "HAND")])]]) :=
  coerceValue_of_coerceLiteral Ledger.registry Ledger.takesAnything none none _ _ _ rfl
    Ledger.written_distinct Ledger.written_coerced

end GraphQL
