import GraphQL.Proofs.Coercion.Agreement
import GraphQL.Proofs.Coercion.Promotion

/-!
Variables inside the literals of a scalar that takes any value. The scalar reads its literals
without variables: one that is the whole literal is replaced by its value, one inside a list or an
object reads as null.
-/

namespace GraphQL

namespace Literal

variable {valueOf other : String → Option Json}

private theorem failure?_itemsToJson {items : List Literal}
    (each : ∀ item ∈ items, failure? (item.toJson valueOf) = failure? (item.toJson other)) :
    failure? (itemsToJson valueOf items) = failure? (itemsToJson other items) := by
  induction items with
  | nil => rfl
  | cons head tail induction =>
      have parts := List.forall_mem_cons.mp each
      rw [itemsToJson, itemsToJson, failure?_both, failure?_both, parts.1, induction parts.2]

private theorem failure?_toJson (literal : Literal) :
    failure? (literal.toJson valueOf) = failure? (literal.toJson other) := by
  induction literal using Literal.induct with
  | mentioned name => rfl
  | list items each =>
      rw [toJson, toJson]
      exact failure?_map.trans ((failure?_itemsToJson each).trans failure?_map.symm)
  | object fields each =>
      have same := failure?_itemsToJson (List.forall_mem_map.mpr each)
      rw [toJson, toJson, fieldsToJson_eq, fieldsToJson_eq]
      refine failure?_map.trans (Eq.trans ?_ failure?_map.symm)
      rw [failure?_map, failure?_map, same]
  | _ => rfl

private theorem length_of_itemsToJson {items : List Literal} {values : List Json}
    (areValues : itemsToJson valueOf items = .ok values) : values.length = items.length := by
  induction items generalizing values with
  | nil =>
      cases areValues
      rfl
  | cons head tail induction =>
      rcases both_eq_ok.mp areValues with ⟨value, later, _, areLater, rfl⟩
      rw [List.length_cons, List.length_cons, induction areLater]

/-- What the variables of each item agree on if it reads as one value, those of all agree on if all
do. -/
private theorem agree_of_itemsToJson {items : List Literal} {values : List Json}
    (each : ∀ item ∈ items, ∀ value, item.toJson valueOf = .ok value →
      item.toJson other = .ok value → ∀ name ∈ item.variableNames,
        (valueOf name).getD .null = (other name).getD .null)
    (first : itemsToJson valueOf items = .ok values)
    (second : itemsToJson other items = .ok values) :
    ∀ item ∈ items, ∀ name ∈ item.variableNames,
      (valueOf name).getD .null = (other name).getD .null := by
  induction items generalizing values with
  | nil => exact nofun
  | cons head tail induction =>
      have parts := List.forall_mem_cons.mp each
      rcases both_eq_ok.mp first with ⟨value, later, isValue, areLater, rfl⟩
      rcases both_eq_ok.mp second with ⟨value', later', isValue', areLater', same⟩
      cases same
      exact List.forall_mem_cons.mpr
        ⟨parts.1 value isValue isValue', induction parts.2 areLater areLater'⟩

private theorem agree_of_toJson {literal : Literal} :
    ∀ json, literal.toJson valueOf = .ok json → literal.toJson other = .ok json →
      ∀ name ∈ literal.variableNames, (valueOf name).getD .null = (other name).getD .null := by
  induction literal using Literal.induct with
  | mentioned name =>
      intro json first second
      rw [toJson, Except.ok.injEq] at first second
      exact List.forall_mem_singleton.mpr (first.trans second.symm)
  | list items each =>
      intro json first second
      rw [toJson, bind_eq_ok_iff] at first second
      rcases first with ⟨values, areValues, isJson⟩
      cases isJson
      rcases second with ⟨values', areValues', isJson⟩
      cases isJson
      rw [variableNames, itemVariables_eq, List.forall_mem_flatMap]
      exact agree_of_itemsToJson each areValues areValues'
  | object fields each =>
      intro json first second
      rw [toJson, fieldsToJson_eq, bind_eq_ok_iff] at first second
      rcases first with ⟨entries, areEntries, isJson⟩
      cases isJson
      rcases second with ⟨entries', areEntries', isJson⟩
      cases isJson
      rcases map_eq_ok.mp areEntries with ⟨values, areValues, rfl⟩
      rcases map_eq_ok.mp areEntries' with ⟨values', areValues', sameEntries⟩
      -- The names are as many as the values, so that the entries tell the values.
      have unzip {values : List Json} (length : values.length = (fields.map Prod.snd).length) :
          ((Named.names fields).zip values).map Prod.snd = values :=
        List.map_snd_zip (by simp [Named.names, length])
      have sameValues := congrArg (List.map Prod.snd) sameEntries
      rw [unzip (length_of_itemsToJson areValues), unzip (length_of_itemsToJson areValues')]
        at sameValues
      subst sameValues
      rw [variableNames, fieldVariables_eq, List.forall_mem_flatMap]
      exact List.forall_mem_map.mp
        (agree_of_itemsToJson (List.forall_mem_map.mpr each) areValues areValues')
  | _ =>
      intro json _ _ name mentioned
      cases mentioned

/-- Without variables a literal reads as it does with them exactly if they are all null or absent.
-/
private theorem exists_substituted {literal : Literal} {value : Json} (values : Variables)
    (read : literal.valueWith none = .ok value) :
    ∃ substituted, literal.valueWith (some values) = .ok substituted ∧
      (value = substituted ↔
        ∀ name ∈ literal.variableNames, (values.value? name).getD .null = .null) := by
  have reads : ∃ substituted, literal.valueWith (some values) = .ok substituted := by
    rw [← failure?_eq_none, valueWith, literal.failure?_toJson]
    exact failure?_eq_none.mpr ⟨value, read⟩
  rcases reads with ⟨substituted, isSubstituted⟩
  refine ⟨substituted, isSubstituted, ?_, fun allNull => ?_⟩
  · rintro rfl
    exact agree_of_toJson value isSubstituted read
  · have same : literal.valueWith none = literal.valueWith (some values) :=
      toJson_congr fun name mentioned => (allNull name mentioned).symm
    rw [read, isSubstituted] at same
    exact Except.ok.inj same

end Literal

namespace Registry

variable {registry : Registry} {values : Variables} {literal : Literal} {type : TypeRef}
  {value : Json}

theorem variableAt_of_bare {name : String} (bare : type.nullable.isBare = true) :
    variableAt (some values) name type = .ok value ↔
      (values.value? name).getD .null = value ∧ (type.isNonNull = true → value.isNull = false) := by
  have judged (json : Json) (error : CoercionError) :
      (if json.isNull && type.isNonNull then Except.error error else .ok json) = .ok value ↔
        json = value ∧ (type.isNonNull = true → value.isNull = false) := by
    cases required : type.isNonNull with
    | false => simp
    | true =>
        cases isNull : json.isNull with
        | false =>
            simp only [Bool.and_true, Bool.false_eq_true, if_false, Except.ok.injEq, forall_const]
            exact ⟨fun same => ⟨same, same ▸ isNull⟩, And.left⟩
        | true =>
            simp only [Bool.and_true, if_true, reduceCtorEq, forall_const, false_iff]
            rintro ⟨rfl, notNull⟩
            rw [isNull] at notNull
            cases notNull
  rw [variableAt, Variables.value?]
  cases values.get? name with
  | none => exact judged .null _
  | some entry =>
      simp only [promoteVariable_of_bare bare]
      exact judged entry.value _

/-- What is no variable a scalar reads without variables. -/
theorem coerceLiteral_of_scalar {named : NamedType} {shape : ScalarShape}
    (resolved : registry.resolve? type = some named) (isScalar : named.shape = .scalar shape)
    (bare : type.nullable.isBare = true) (values? : Option Variables) {literal : Literal}
    (notVariable : literal.isVariable = false) :
    registry.coerceLiteral values? literal type = .ok value ↔
      if literal.isNull then type.isNonNull = false ∧ .null = value
      else shape.parseLiteral literal = .ok value := by
  have resolved : registry.resolve? type.nullable = some named := by
    rw [← resolved]
    cases type <;> rfl
  have atScalar (fields? : Option (List String × List (String × InputReader))) :
      registry.literalAtNamed literal fields? type.nullable = .ok value ↔
        shape.parseLiteral literal = .ok value := by
    rw [literalAtNamed_eq_ok, resolved]
    simp [NamedType.Takes, isScalar, RawInput.parse]
  cases literal with
  | «variable» name => cases notVariable
  | null =>
      rw [coerceLiteral, InputReader.throughWrappers_of_bare bare, if_pos rfl]
      rfl
  | _ =>
      rw [coerceLiteral, InputReader.throughWrappers_of_bare bare, if_neg Bool.false_ne_true,
        atScalar]
      rfl

/-- A scalar that takes any value reads what is no variable without variables. -/
private theorem coerceLiteral_any_of_not_variable {named : NamedType} {shape : ScalarShape}
    (resolved : registry.resolve? type = some named) (isScalar : named.shape = .scalar shape)
    (takesAny : shape.parseLiteral = ScalarShape.any.parseLiteral)
    (bare : type.nullable.isBare = true) {literal : Literal}
    (notVariable : literal.isVariable = false) :
    registry.coerceLiteral (some values) literal type = .ok value ↔
      literal.valueWith none = .ok value ∧ (type.isNonNull = true → value.isNull = false) := by
  rw [coerceLiteral_of_scalar resolved isScalar bare _ notVariable]
  cases isNull : literal.isNull with
  | true =>
      rw [Literal.eq_null isNull, Literal.valueWith, Literal.toJson, Except.ok.injEq, if_pos rfl,
        and_comm]
      refine and_congr_right ?_
      rintro rfl
      cases type.isNonNull <;> simp [Json.isNull]
  | false =>
      rw [if_neg Bool.false_ne_true, takesAny]
      exact iff_self_and.mpr fun read _ => (Literal.toJson_kind notVariable read).1.trans isNull

/-- A scalar that takes any value reads a literal as it stands: one that is a variable is replaced
by the variable's value, one that is not is read as if no variable had a value. So its variables are
substituted only if it is a variable itself, or if all of them are null or absent. -/
theorem coerceLiteral_any (registry : Registry) (values : Variables) (literal : Literal)
    (type : TypeRef) (value : Json) {named : NamedType} {shape : ScalarShape}
    (resolved : registry.resolve? type = some named) (isScalar : named.shape = .scalar shape)
    (takesAny : shape.parseLiteral = ScalarShape.any.parseLiteral)
    (bare : type.nullable.isBare = true) :
    (registry.coerceLiteral (some values) literal type = .ok value ↔
      literal.valueWith (if literal.isVariable then some values else none) = .ok value ∧
        (type.isNonNull = true → value.isNull = false)) ∧
    (registry.coerceLiteral (some values) literal type = .ok value →
      ∃ substituted, literal.valueWith (some values) = .ok substituted ∧
        (value = substituted ↔ literal.isVariable = true ∨
          ∀ name ∈ literal.variableNames, (values.value? name).getD .null = .null)) := by
  have reads : registry.coerceLiteral (some values) literal type = .ok value ↔
      literal.valueWith (if literal.isVariable then some values else none) = .ok value ∧
        (type.isNonNull = true → value.isNull = false) := by
    cases isVariable : literal.isVariable with
    | false => exact coerceLiteral_any_of_not_variable resolved isScalar takesAny bare isVariable
    | true =>
        cases literal with
        | «variable» name =>
            rw [coerceLiteral, variableAt_of_bare bare, if_pos rfl, Literal.valueWith,
              Literal.toJson, Except.ok.injEq]
            rfl
        | _ => cases isVariable
  refine ⟨reads, fun coerced => ?_⟩
  have read := (reads.mp coerced).1
  cases isVariable : literal.isVariable with
  | true =>
      rw [isVariable, if_pos rfl] at read
      exact ⟨value, read, by simp⟩
  | false =>
      rw [isVariable, if_neg Bool.false_ne_true] at read
      simpa using Literal.exists_substituted values read

end Registry

namespace Ledger

/-- Notes that mention the account an entry is for. -/
def mention : Literal := .object [("account", .variable "from")]

end Ledger

/-- The notes are coerced, and the account they mention is lost. -/
theorem Registry.coerceLiteral_any_of_ledger :
    Ledger.registry.coerceLiteral (some Ledger.given) Ledger.mention (.named "Notes") =
      .ok (.object [("account", .null)]) ∧
    Ledger.mention.valueWith (some Ledger.given) = .ok (.object [("account", .string "7")]) ∧
    ¬∀ name ∈ Ledger.mention.variableNames,
      (Ledger.given.value? name).getD .null = .null := by
  have notes : Ledger.registry.resolve? (.named "Notes") = some Ledger.notes := rfl
  have reads := Registry.coerceLiteral_any Ledger.registry Ledger.given Ledger.mention
    (.named "Notes") (.object [("account", .null)]) notes rfl rfl rfl
  have coerced := reads.1.mpr ⟨rfl, nofun⟩
  have isSubstituted : Ledger.mention.valueWith (some Ledger.given) =
      .ok (.object [("account", .string "7")]) := rfl
  rcases reads.2 coerced with ⟨substituted, same, equal⟩
  refine ⟨coerced, isSubstituted, fun allNull => ?_⟩
  have lost := equal.mpr (.inr allNull)
  rw [isSubstituted] at same
  cases lost.trans (Except.ok.inj same).symm

end GraphQL
