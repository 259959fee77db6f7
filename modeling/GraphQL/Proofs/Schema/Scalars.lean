import GraphQL.Schema.Registry
import GraphQL.Schema.Scalars

/-!
Which scalars serialize values to values. The built-in ones turn nothing but null into null.
-/

namespace GraphQL

namespace Scalar

/-- Serializing turns no value into null. -/
def KeepsValues (scalar : ScalarShape) : Prop :=
  ∀ json result : Json, json.isNull = false → scalar.serialize json = .ok result →
    result.isNull = false

theorem finite_isNumber {value : Float} {json : Json} (isFinite : finite value = .ok json) :
    json.isNull = false := by
  rw [finite, Json.ofFloat?] at isFinite
  split at isFinite
  · rename_i given
    cases isFinite
    split at given
    · cases given
      rfl
    · cases given
  · cases isFinite

private theorem intNumber_isNumber {number : Number} {json : Json}
    (isInt : intNumber number = .ok json) :
    json.isNull = false := by
  rw [intNumber] at isInt
  split at isInt
  · cases isInt
    rfl
  · cases isInt

private theorem string_keepsValues : KeepsValues string := by
  intro json result notNull serialized
  cases json <;> cases serialized <;> rfl

private theorem int_keepsValues : KeepsValues int := by
  intro json result notNull serialized
  cases json with
  | number number => exact intNumber_isNumber serialized
  | string text =>
      simp only [int] at serialized
      split at serialized <;> cases serialized
      rfl
  | _ => cases serialized <;> rfl

private theorem float_keepsValues : KeepsValues float := by
  intro json result notNull serialized
  cases json with
  | number number => exact finite_isNumber serialized
  | bool flag => exact finite_isNumber serialized
  | string text =>
      simp only [float] at serialized
      split at serialized
      · exact finite_isNumber serialized
      · cases serialized
  | _ => cases serialized

private theorem boolean_keepsValues : KeepsValues boolean := by
  intro json result notNull serialized
  cases json with
  | number number => cases number <;> cases serialized <;> rfl
  | _ => cases serialized <;> rfl

private theorem id_keepsValues : KeepsValues id := by
  intro json result notNull serialized
  cases json with
  | number number =>
      cases number with
      | int value =>
          cases serialized
          rfl
      | float value => cases serialized
  | _ => cases serialized <;> rfl

/-- What each built-in scalar has, a built-in type that is a scalar has. -/
theorem all_have {holds : ScalarShape → Prop} (ofString : holds string) (ofInt : holds int)
    (ofFloat : holds float) (ofBoolean : holds boolean) (ofId : holds id) {type : NamedType}
    (isBuiltIn : type ∈ all) {scalar : ScalarShape} (isScalar : type.shape = .scalar scalar) :
    holds scalar := by
  simp only [all, List.mem_cons, List.not_mem_nil, or_false] at isBuiltIn
  rcases isBuiltIn with rfl | rfl | rfl | rfl | rfl
  all_goals
    cases isScalar
    assumption

private theorem all_keepValues {type : NamedType} (isBuiltIn : type ∈ all) {scalar : ScalarShape}
    (isScalar : type.shape = .scalar scalar) : KeepsValues scalar :=
  all_have string_keepsValues int_keepsValues float_keepsValues
    boolean_keepsValues id_keepsValues isBuiltIn isScalar

end Scalar

/-- The scalars of the application serialize no value to null. -/
def Registry.KeepsValues (registry : Registry) : Prop :=
  ∀ type ∈ registry.types, type ∉ Scalar.all → ∀ scalar, type.shape = .scalar scalar →
    Scalar.KeepsValues scalar

theorem Registry.KeepsValues.scalar {registry : Registry} (keeps : registry.KeepsValues)
    {type : NamedType} (registered : type ∈ registry.types) {scalar : ScalarShape}
    (isScalar : type.shape = .scalar scalar) : Scalar.KeepsValues scalar := by
  by_cases isBuiltIn : type ∈ Scalar.all
  · exact Scalar.all_keepValues isBuiltIn isScalar
  · exact keeps type registered isBuiltIn scalar isScalar

end GraphQL
