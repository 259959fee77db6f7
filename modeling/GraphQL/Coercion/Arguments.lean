import GraphQL.Coercion.Literal

/-!
Coercion of the arguments written on a field or directive.
-/

namespace GraphQL

inductive ArgumentSource where
  | literal
  | nullLiteral
  | variable
  /-- A variable that was not provided and has a default. -/
  | variableDefault
  /-- The default of the argument itself. -/
  | fieldDefault
deriving DecidableEq, Repr

def ArgumentSource.text : ArgumentSource → String
  | .literal => "Literal"
  | .nullLiteral => "NullLiteral"
  | .variable => "Variable"
  | .variableDefault => "VariableDefault"
  | .fieldDefault => "FieldDefault"

structure ArgumentValue where
  value : Json
  source : ArgumentSource

abbrev Arguments := List (String × ArgumentValue)

namespace Arguments

def get? (arguments : Arguments) (name : String) : Option Json :=
  (Named.value? arguments name).map ArgumentValue.value

def source? (arguments : Arguments) (name : String) : Option ArgumentSource :=
  (Named.value? arguments name).map ArgumentValue.source

def insert (arguments : Arguments) (name : String) (argument : ArgumentValue) : Arguments :=
  Named.put arguments (name, argument)

/-- Read an argument as a value of some kind. An absent argument reads as nothing; one of another
kind does not read at all. -/
def tryGet {α : Type} (arguments : Arguments) (decode : Json → Option α) (name : String) :
    Option (Option α) :=
  match arguments.get? name with
  | none => some none
  | some value => (decode value).map some

end Arguments

def Literal.source (values : Variables) : Literal → ArgumentSource
  | .null => .nullLiteral
  | .variable name =>
      match (values.get? name).map VariableValue.source with
      | some .variableDefault => .variableDefault
      | _ => .variable
  | _ => .literal

namespace InputValueDefinition

def absentArgument (definition : InputValueDefinition) : Except CoercionError Arguments :=
  match definition.default with
  | some value => .ok [(definition.name, ⟨value, .fieldDefault⟩)]
  | none =>
      if definition.type.isNonNull then
        .error
          { message :=
              s!"Argument \"{definition.name}\" of required type \"{definition.type.text}\" was not provided."
            path := [.key definition.name] }
      else .ok []

/-- The entry of one argument. Of several written with its name the first counts. -/
def argumentEntry (registry : Registry) (written : ArgumentList) (values : Variables)
    (definition : InputValueDefinition) : Except CoercionError Arguments :=
  match (Named.value? written definition.name).filter
      fun literal => !literal.isAbsent (some values) with
  | none => definition.absentArgument
  | some literal =>
      match registry.coerceLiteral (some values) literal definition.type with
      | .ok value => .ok [(definition.name, ⟨value, literal.source values⟩)]
      | .error error =>
          .error
            { message :=
                s!"Argument \"{definition.name}\" has invalid value {literal.text}. {error.message}"
              path := .key definition.name :: error.path }

end InputValueDefinition

def Registry.coerceArguments (registry : Registry) (written : ArgumentList)
    (values : Variables) : List InputValueDefinition → Except CoercionError Arguments
  | [] => .ok []
  | definition :: definitions => do
      let entry ← definition.argumentEntry registry written values
      let rest ← registry.coerceArguments written values definitions
      return entry ++ rest

end GraphQL
