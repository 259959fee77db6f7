import GraphQL.Json.Basic
import GraphQL.Schema.TypeRef

/-!
The variables of a request after coercion. A variable that was neither provided nor has a default
is absent, which differs from being null.
-/

namespace GraphQL

inductive VariableSource where
  | explicit
  | variableDefault
deriving DecidableEq, Repr

def VariableSource.text : VariableSource → String
  | .explicit => "Explicit"
  | .variableDefault => "VariableDefault"

structure VariableValue where
  value : Json
  source : VariableSource
  /-- The declared type, from which a value is promoted into lists. -/
  type : TypeRef

abbrev Variables := List (String × VariableValue)

namespace Variables

def get? (values : Variables) (name : String) : Option VariableValue :=
  Named.value? values name

def value? (values : Variables) (name : String) : Option Json :=
  (values.get? name).map VariableValue.value

def toJson (values : Variables) : Json :=
  .object (values.map fun (name, entry) => (name, entry.value))

end Variables

/-! ## Promotion -/

/-- Promote a value into a list position: item by item if it is a list of its own type, else as the
only item. -/
def promoteIntoList (promoteItem : TypeRef → Json → Json) (variableType : TypeRef)
    (value : Json) : Json :=
  if value.isNull then value
  else
    match variableType.nullable with
    | .list variableItem =>
        match value with
        | .array items => .array (items.map (promoteItem variableItem))
        | other => other
    | _ => .array [promoteItem variableType value]

def promoteVariable : (location : TypeRef) → (variableType : TypeRef) → Json → Json
  | .list item => promoteIntoList (promoteVariable item)
  | .nonNull (.list item) => promoteIntoList (promoteVariable item)
  | _ => fun _ value => value

end GraphQL
