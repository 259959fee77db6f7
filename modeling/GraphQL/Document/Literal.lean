import GraphQL.Named

/-!
Positions in a document, the values written in it, and the types written in variable definitions.
-/

namespace GraphQL

structure Position where
  line : Nat
  column : Nat
deriving DecidableEq, Repr, Inhabited

/-- A value as written in a document. The fields of an object are sorted by name. -/
inductive Literal where
  | variable (name : String)
  | int (value : Int)
  | float (value : Float)
  | string (value : String)
  | boolean (value : Bool)
  | null
  | enum (name : String)
  | list (items : List Literal)
  | object (fields : List (String × Literal))

instance : Inhabited Literal := ⟨.null⟩

namespace Literal

def isNull : Literal → Bool
  | .null => true
  | _ => false

mutual

def variableNames : Literal → List String
  | .variable name => [name]
  | .list items => itemVariables items
  | .object fields => fieldVariables fields
  | _ => []

def itemVariables : List Literal → List String
  | [] => []
  | item :: items => variableNames item ++ itemVariables items

def fieldVariables : List (String × Literal) → List String
  | [] => []
  | (_, value) :: fields => variableNames value ++ fieldVariables fields

end

/-- Put a field before the first one with a greater name, in the place of one with the same name. -/
def insertField (field : String × Literal) : List (String × Literal) → List (String × Literal)
  | [] => [field]
  | head :: tail =>
      if field.1 = head.1 then field :: tail
      else if field.1 < head.1 then field :: head :: tail
      else head :: insertField field tail

def ofFields (fields : List (String × Literal)) : Literal :=
  .object (fields.foldl (fun sorted field => insertField field sorted) [])

end Literal

inductive TypeExpr where
  | named (name : String)
  | list (item : TypeExpr)
  | nonNull (inner : TypeExpr)
deriving DecidableEq, Repr, Inhabited

end GraphQL
