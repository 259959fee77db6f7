import GraphQL.Coercion.Error
import GraphQL.Schema.Registry

/-!
What a type asks of any input, whether a JSON value or a literal: non-null positions refuse null,
a list takes a single value as its only item, and an input object has the fields it defines.
-/

namespace GraphQL

abbrev InputReader := TypeRef → Except CoercionError Json

namespace InputReader

/-- Read a value through the wrappers of a type. `refusal` is the message of a null at a non-null
type, `items?` reads the items of a value that is a list, and `leaf` reads at a type without
wrappers. -/
def throughWrappers (isNull : Bool) (refusal : TypeRef → String)
    (items? : Option InputReader) (leaf : InputReader) : InputReader
  | .nonNull inner =>
      if isNull then .error ⟨refusal (.nonNull inner), []⟩
      else throughWrappers isNull refusal items? leaf inner
  | .list item =>
      if isNull then .ok .null
      else
        match items? with
        | some items => items item
        | none => do
            let value ← throughWrappers isNull refusal items? leaf item
            return .array [value]
  | type => if isNull then .ok .null else leaf type

def under (segment : PathSegment) (result : Except CoercionError Json) :
    Except CoercionError Json :=
  result.mapError (CoercionError.under segment)

end InputReader

namespace InputValueDefinition

def absentEntry (owner : String) (definition : InputValueDefinition) :
    Except CoercionError (List (String × Json)) :=
  match definition.default with
  | some value => .ok [(definition.name, value)]
  | none =>
      if definition.type.isNonNull then
        .error ⟨s!"Field \"{owner}.{definition.name}\" of required type \"{definition.type.text}\" was not provided.", []⟩
      else .ok []

end InputValueDefinition

def Registry.inputType (registry : Registry) (type : TypeRef) : Except CoercionError NamedType :=
  match registry.resolve? type with
  | some named =>
      if named.isInput then .ok named
      else .error ⟨s!"Type \"{named.name}\" is not an input type.", []⟩
  | none => .error ⟨s!"Unknown type \"{type.typeName}\".", []⟩

namespace InputObject

def unknownField? (definitions : List InputValueDefinition) (names : List String) :
    Option String :=
  names.find? fun name => !Named.contains definitions name

def entries (owner : String) (given : List (String × InputReader)) :
    List InputValueDefinition → Except CoercionError (List (String × Json))
  | [] => .ok []
  | definition :: definitions => do
      let entry ←
        match Named.value? given definition.name with
        | some reader => do
            let value ← InputReader.under (.key definition.name) (reader definition.type)
            .ok [(definition.name, value)]
        | none => definition.absentEntry owner
      let rest ← entries owner given definitions
      return entry ++ rest

def read (owner : String) (definitions : List InputValueDefinition) (names : List String)
    (given : List (String × InputReader)) : Except CoercionError Json :=
  match unknownField? definitions names with
  | some name => .error ⟨s!"Unknown field \"{name}\" is not defined by type \"{owner}\".", []⟩
  | none => do
      let fields ← entries owner given definitions
      return .object fields

end InputObject

def CoercionError.explain (message : String → String) (result : Except String Json) :
    Except CoercionError Json :=
  result.mapError fun reason => ⟨message reason, []⟩

end GraphQL
