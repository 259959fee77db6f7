import GraphQL.Coercion.Position
import GraphQL.Coercion.Variables
import GraphQL.Document.Printer

/-!
Coercion of literals to input types. Without variables it is a dry run, in which every variable
reference is accepted and reads as null.
-/

namespace GraphQL

namespace Literal

/-- A reference to a variable that is absent. In a dry run nothing is absent. -/
def isAbsent (values? : Option Variables) : Literal → Bool
  | .variable name =>
      match values? with
      | some values => (values.get? name).isNone
      | none => false
  | _ => false

end Literal

namespace Registry

def variableAt (values? : Option Variables) (name : String) : InputReader := fun type =>
  match values? with
  | none => .ok .null
  | some values =>
      let value := match values.get? name with
        | some entry => promoteVariable type entry.type entry.value
        | none => .null
      if value.isNull && type.isNonNull then
        .error ⟨s!"Expected non-nullable type \"{type.text}\" not to be null, but variable \"${name}\" is.", []⟩
      else .ok value

/-- Read a literal that is neither null nor a variable at a type without wrappers. `fields?` are
the fields of an object: their names, and those present. -/
def literalAtNamed (registry : Registry) (literal : Literal)
    (fields? : Option (List String × List (String × InputReader))) (type : TypeRef) :
    Except CoercionError Json := do
  let named ← registry.inputType type
  match named.shape with
  | .scalar shape =>
      CoercionError.explain
        (fun reason => s!"Expected value of type \"{named.name}\", found {literal.text}; {reason}")
        (shape.parseLiteral literal)
  | .enum values =>
      match literal with
      | .enum name =>
          match EnumValueDefinition.parseName? values name with
          | some internal => .ok internal
          | none => .error ⟨s!"Value \"{name}\" does not exist in \"{named.name}\" enum.", []⟩
      | other =>
          .error ⟨s!"Enum \"{named.name}\" cannot represent non-enum value: {other.text}.", []⟩
  | .inputObject definitions =>
      match fields? with
      | none => .error ⟨s!"Expected value of type \"{named.name}\", found {literal.text}.", []⟩
      | some (names, present) => InputObject.read named.name definitions names present
  | _ => .error ⟨s!"Type \"{type.typeName}\" is not an input type.", []⟩

def nullLiteralRefusal (type : TypeRef) : String :=
  s!"Expected value of type \"{type.text}\", found null."

mutual

def coerceLiteral (registry : Registry) (values? : Option Variables) : Literal → InputReader
  | .variable name => variableAt values? name
  | .null => InputReader.throughWrappers true nullLiteralRefusal none fun _ => .ok .null
  | .list items =>
      InputReader.throughWrappers false nullLiteralRefusal
        (some fun item => (coerceLiterals registry values? items 0 item).map .array)
        (registry.literalAtNamed (.list items) none)
  | .object fields =>
      InputReader.throughWrappers false nullLiteralRefusal none
        (registry.literalAtNamed (.object fields)
          (some (Named.names fields, literalReaders registry values? fields)))
  | .int value =>
      InputReader.throughWrappers false nullLiteralRefusal none
        (registry.literalAtNamed (.int value) none)
  | .float value =>
      InputReader.throughWrappers false nullLiteralRefusal none
        (registry.literalAtNamed (.float value) none)
  | .string value =>
      InputReader.throughWrappers false nullLiteralRefusal none
        (registry.literalAtNamed (.string value) none)
  | .boolean value =>
      InputReader.throughWrappers false nullLiteralRefusal none
        (registry.literalAtNamed (.boolean value) none)
  | .enum name =>
      InputReader.throughWrappers false nullLiteralRefusal none
        (registry.literalAtNamed (.enum name) none)

def coerceLiterals (registry : Registry) (values? : Option Variables) :
    List Literal → Nat → TypeRef → Except CoercionError (List Json)
  | [], _, _ => .ok []
  | item :: items, index, type => do
      let value ←
        InputReader.under (.index index) (coerceLiteral registry values? item type)
      let rest ← coerceLiterals registry values? items (index + 1) type
      return value :: rest

def literalReaders (registry : Registry) (values? : Option Variables) :
    List (String × Literal) → List (String × InputReader)
  | [] => []
  | (name, value) :: fields =>
      let rest := literalReaders registry values? fields
      if value.isAbsent values? then rest
      else (name, coerceLiteral registry values? value) :: rest

end

end Registry

def Literal.valueWith (values? : Option Variables) (literal : Literal) : Except String Json :=
  literal.toJson fun name => values?.bind fun values => values.value? name

end GraphQL
