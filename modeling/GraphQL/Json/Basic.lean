import GraphQL.Named
import GraphQL.Decimal.Binary

/-!
JSON values. Objects keep the order in which their keys were first written, and whole numbers are
kept apart from doubles.
-/

namespace GraphQL

inductive Number where
  | int (value : Int)
  | float (value : Float)

namespace Number

def toFloat : Number → Float
  | .int value => if value < 0 then -(Float.ofNat value.natAbs) else Float.ofNat value.natAbs
  | .float value => value

/-- Whole numbers and doubles are never the same; doubles are compared as numbers. -/
def same : Number → Number → Bool
  | .int left, .int right => left == right
  | .float left, .float right => left == right
  | _, _ => false

end Number

inductive Json where
  | null
  | bool (value : Bool)
  | number (value : Number)
  | string (value : String)
  | array (items : List Json)
  | object (fields : List (String × Json))

instance : Inhabited Json := ⟨.null⟩

namespace Json

def int (value : Int) : Json := .number (.int value)

def ofFloat? (value : Float) : Option Json :=
  if (Double.ofFloat value).isFinite then some (.number (.float value)) else none

def isNull : Json → Bool
  | .null => true
  | _ => false

def asString? : Json → Option String
  | .string value => some value
  | _ => none

def asBool? : Json → Option Bool
  | .bool value => some value
  | _ => none

def asInt? : Json → Option Int
  | .number (.int value) => some value
  | _ => none

def asInt64? : Json → Option Int
  | .number (.int value) => if fitsInt64 value then some value else none
  | _ => none

def asArray? : Json → Option (List Json)
  | .array items => some items
  | _ => none

def asObject? : Json → Option (List (String × Json))
  | .object fields => some fields
  | _ => none

def get? : Json → String → Option Json
  | .object fields, key => Named.value? fields key
  | _, _ => none

mutual

/-- Equality of values: the order of an object's keys does not matter. -/
def same : Json → Json → Bool
  | .null, .null => true
  | .bool left, .bool right => left == right
  | .number left, .number right => left.same right
  | .string left, .string right => left == right
  | .array left, .array right => sameItems left right
  | .object left, .object right => left.length == right.length && sameFields left right
  | _, _ => false

def sameItems : List Json → List Json → Bool
  | [], [] => true
  | left :: lefts, right :: rights => same left right && sameItems lefts rights
  | _, _ => false

def sameFields : List (String × Json) → List (String × Json) → Bool
  | [], _ => true
  | (key, left) :: lefts, fields =>
      (match Named.value? fields key with
        | some right => same left right
        | none => false) && sameFields lefts fields

end

end Json

end GraphQL
