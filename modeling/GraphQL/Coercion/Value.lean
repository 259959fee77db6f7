import GraphQL.Coercion.Position
import GraphQL.Json.Writer

/-!
Coercion of JSON values, such as those of variables, to input types.
-/

namespace GraphQL

namespace Registry

def valueAtNamed (registry : Registry) (value : Json)
    (fields? : Option (List (String × InputReader))) (type : TypeRef) :
    Except CoercionError Json := do
  let named ← registry.inputType type
  match named.shape with
  | .scalar shape =>
      CoercionError.explain (fun reason => s!"Expected type \"{named.name}\". {reason}")
        (shape.parseValue value)
  | .enum values =>
      match value.asString?.bind (EnumValueDefinition.parseName? values) with
      | some internal => .ok internal
      | none => .error ⟨s!"Value {value.text} does not exist in \"{named.name}\" enum.", []⟩
  | .inputObject definitions =>
      match fields? with
      | none => .error ⟨s!"Expected type \"{named.name}\" to be an object.", []⟩
      | some fields => InputObject.read named.name definitions (Named.names fields) fields
  | _ => .error ⟨s!"Type \"{type.typeName}\" is not an input type.", []⟩

def nullValueRefusal (type : TypeRef) : String :=
  s!"Expected non-nullable type \"{type.text}\" not to be null."

mutual

def coerceValue (registry : Registry) : Json → InputReader
  | .null => InputReader.throughWrappers true nullValueRefusal none fun _ => .ok .null
  | .array items =>
      InputReader.throughWrappers false nullValueRefusal
        (some fun item => (coerceItems registry items 0 item).map .array)
        (registry.valueAtNamed (.array items) none)
  | .object fields =>
      InputReader.throughWrappers false nullValueRefusal none
        (registry.valueAtNamed (.object fields) (some (fieldReaders registry fields)))
  | .bool value =>
      InputReader.throughWrappers false nullValueRefusal none
        (registry.valueAtNamed (.bool value) none)
  | .number value =>
      InputReader.throughWrappers false nullValueRefusal none
        (registry.valueAtNamed (.number value) none)
  | .string value =>
      InputReader.throughWrappers false nullValueRefusal none
        (registry.valueAtNamed (.string value) none)

def coerceItems (registry : Registry) : List Json → Nat → TypeRef →
    Except CoercionError (List Json)
  | [], _, _ => .ok []
  | item :: items, index, type => do
      let value ← InputReader.under (.index index) (coerceValue registry item type)
      let values ← coerceItems registry items (index + 1) type
      return value :: values

def fieldReaders (registry : Registry) : List (String × Json) → List (String × InputReader)
  | [] => []
  | (name, value) :: fields => (name, coerceValue registry value) :: fieldReaders registry fields

end

end Registry

end GraphQL
