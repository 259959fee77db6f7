import GraphQL.Decimal.Reading
import GraphQL.Text.Blank
import GraphQL.Schema.Types

/-!
The built-in scalars: `String`, `Int`, `Float`, `Boolean` and `ID`.
-/

namespace GraphQL

namespace Scalar

/-! ## Numbers from numbers and texts -/

def int32? : Number → Option Int
  | .int value => if fitsInt32 value then some value else none
  | .float value => (Double.ofFloat value).toInt?.filter fitsInt32

/-- A text that spells a 32-bit integer: an optional sign and digits. -/
def int32OfText? (text : List Char) : Option Int :=
  let (negative, digits) := match text with
    | '-' :: rest => (true, rest)
    | '+' :: rest => (false, rest)
    | _ => (false, text)
  if digits = [] ∨ ¬digits.all Char.isDigit then none
  else
    let magnitude : Int := digitsValue digits
    let value := if negative then -magnitude else magnitude
    if fitsInt32 value then some value else none

def decimalOfText? (negative : Bool) (text : List Char) : Option Float :=
  let isExponentMark := fun char : Char => char == 'e' || char == 'E'
  let mantissa := text.takeWhile fun char => !isExponentMark char
  let afterMantissa := text.dropWhile fun char => !isExponentMark char
  let whole := mantissa.takeWhile (· != '.')
  let fraction := (mantissa.dropWhile (· != '.')).drop 1
  let exponent : Option Int := match afterMantissa with
    | [] => some 0
    | _ :: '-' :: digits =>
        if digits = [] ∨ ¬digits.all Char.isDigit then none else some (-(digitsValue digits : Int))
    | _ :: '+' :: digits =>
        if digits = [] ∨ ¬digits.all Char.isDigit then none else some (digitsValue digits)
    | _ :: digits =>
        if digits = [] ∨ ¬digits.all Char.isDigit then none else some (digitsValue digits)
  if (whole ++ fraction) = [] ∨ ¬(whole ++ fraction).all Char.isDigit then none
  else
    exponent.map fun exponent =>
      nearestDouble negative (digitsValue (whole ++ fraction)) (exponent - fraction.length)

def doubleOfText? (text : List Char) : Option Float :=
  let (negative, magnitude) := match text with
    | '-' :: rest => (true, rest)
    | '+' :: rest => (false, rest)
    | _ => (false, text)
  let lower := magnitude.map Char.toLower
  if lower = "inf".toList ∨ lower = "infinity".toList then
    some (Float.ofBits (if negative then 0xFFF0000000000000 else 0x7FF0000000000000))
  else if lower = "nan".toList then some (Float.ofBits 0x7FF8000000000000)
  else decimalOfText? negative magnitude

/-! ## Int -/

def intNumber (number : Number) : Except String Json :=
  match int32? number with
  | some value => .ok (.int value)
  | none => .error s!"Int cannot represent non 32-bit signed integer value: {number.text}"

def notInteger (text : String) : Except String Json :=
  .error s!"Int cannot represent non-integer value: {text}"

def int : ScalarShape where
  parseValue
    | .number number => intNumber number
    | other => notInteger other.text
  parseLiteral
    | .int value =>
        if fitsInt32 value then .ok (.int value)
        else .error s!"Int cannot represent non 32-bit signed integer value: {Literal.text (.int value)}"
    | other => notInteger other.text
  serialize
    | .number number => intNumber number
    | .bool flag => .ok (.int (if flag then 1 else 0))
    | .string text =>
        match int32OfText? (trimWhiteSpace text.toList) with
        | some value => .ok (.int value)
        | none => notInteger (Json.text (.string text))
    | other => notInteger other.text

/-! ## Float -/

def notNumeric (text : String) : Except String Json :=
  .error s!"Float cannot represent non numeric value: {text}"

def finite (value : Float) : Except String Json :=
  match Json.ofFloat? value with
  | some json => .ok json
  | none => notNumeric (FloatLayout.literal.write (Double.ofFloat value))

def float : ScalarShape where
  parseValue
    | .number number => finite number.toFloat
    | other => notNumeric other.text
  parseLiteral
    | .int value => finite (Number.int value).toFloat
    | .float value => finite value
    | other => notNumeric other.text
  serialize
    | .number number => finite number.toFloat
    | .bool flag => finite (if flag then 1.0 else 0.0)
    | .string text =>
        match doubleOfText? (trimWhiteSpace text.toList) with
        | some value => finite value
        | none => notNumeric (Json.text (.string text))
    | other => notNumeric other.text

/-! ## String -/

def string : ScalarShape where
  parseValue
    | .string text => .ok (.string text)
    | other => .error s!"String cannot represent a non string value: {other.text}"
  parseLiteral
    | .string text => .ok (.string text)
    | other => .error s!"String cannot represent a non string value: {other.text}"
  serialize
    | .string text => .ok (.string text)
    | .number number => .ok (.string number.text)
    | .bool flag => .ok (.string (Json.text (.bool flag)))
    | other => .error s!"String cannot represent value: {other.text}"

/-! ## Boolean -/

def notBoolean (text : String) : Except String Json :=
  .error s!"Boolean cannot represent a non boolean value: {text}"

def boolean : ScalarShape where
  parseValue
    | .bool flag => .ok (.bool flag)
    | other => notBoolean other.text
  parseLiteral
    | .boolean flag => .ok (.bool flag)
    | other => notBoolean other.text
  serialize
    | .bool flag => .ok (.bool flag)
    | .number (.int value) => .ok (.bool (value != 0))
    | .number (.float value) => .ok (.bool (value != 0.0))
    | other => notBoolean other.text

/-! ## ID -/

/-- Strings and whole numbers are identifiers, written as strings. -/
def identifier : Json → Except String Json
  | .string text => .ok (.string text)
  | .number (.int value) => .ok (.string (toString value))
  | other => .error s!"ID cannot represent value: {other.text}"

def id : ScalarShape where
  parseValue := identifier
  parseLiteral
    | .string text => .ok (.string text)
    | .int value => .ok (.string (toString value))
    | other => .error s!"ID cannot represent a non-string and non-integer value: {other.text}"
  serialize := identifier

/-! ## The instances -/

def builtIn (name description : String) (shape : ScalarShape) : NamedType where
  key := .builtIn name
  name := name
  description := some description
  shape := .scalar shape

def all : List NamedType :=
  [builtIn "String"
      "The `String` scalar type represents textual data, represented as UTF-8 character sequences."
      string,
    builtIn "Int"
      "The `Int` scalar type represents non-fractional signed whole numeric values. Int can represent values between -(2^31) and 2^31 - 1."
      int,
    builtIn "Float"
      "The `Float` scalar type represents signed double-precision fractional values as specified by [IEEE 754](https://en.wikipedia.org/wiki/IEEE_floating_point)."
      float,
    builtIn "Boolean" "The `Boolean` scalar type represents `true` or `false`." boolean,
    builtIn "ID"
      "The `ID` scalar type represents a unique identifier, often used to refetch an object or as key for a cache. The ID type appears in a JSON response as a String; however, it is not intended to be human-readable. When expected as an input type, any string (such as `\"4\"`) or integer (such as `4`) input value will be accepted as an ID."
      id]

/-- A scalar that the application defines, with the functions that take and give anything. -/
def custom (key : TypeKey) (name : String) (shape : ScalarShape) : NamedType where
  key := key
  name := name
  shape := .scalar shape

end Scalar

end GraphQL
