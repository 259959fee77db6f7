import GraphQL.Json.Writer
import GraphQL.Text.Printable

/-!
What resolvers hand to the engine: JSON values, lists, objects of the application that only its own
resolvers understand, and values tagged with their object type.
-/

namespace GraphQL

inductive FieldValue where
  | null
  /-- A JSON value. An object doubles as a parent whose keys are its fields. -/
  | json (value : Json)
  | list (items : List FieldValue)
  /-- An object of the application, known to the engine by a number only. -/
  | owned (object : Int)
  /-- A value in an interface or union position with the name of its object type. -/
  | typed (value : FieldValue) (typeName : String)

instance : Inhabited FieldValue := ⟨.null⟩

namespace FieldValue

def inner : FieldValue → FieldValue
  | .typed value _ => value.inner
  | other => other

def isNull : FieldValue → Bool
  | .null => true
  | .json value => value.isNull
  | .typed value _ => value.isNull
  | _ => false

def asJson? (value : FieldValue) : Option Json :=
  match value.inner with
  | .json value => some value
  | _ => none

def asOwned? (value : FieldValue) : Option Int :=
  match value.inner with
  | .owned object => some object
  | _ => none

def typeName? : FieldValue → Option String
  | .typed _ typeName => some typeName
  | _ => none

def items? : FieldValue → Option (List FieldValue)
  | .typed value _ => value.items?
  | .list items => some items
  | .json (.array items) => some (items.map .json)
  | _ => none

/-- The value of a field without resolver: the key of that name in a JSON object. -/
def property (parent : FieldValue) (name : String) : FieldValue :=
  match parent.asJson? with
  | some object => ((object.get? name).map .json).getD .null
  | none => .null

/-! ## The text of a value in messages -/

def debugChar (char : Char) : List Char :=
  if char = '"' then ['\\', '"']
  else if char = '\\' then ['\\', '\\']
  else if char = '\n' then ['\\', 'n']
  else if char = '\r' then ['\\', 'r']
  else if char = '\t' then ['\\', 't']
  else if char.toNat = 0 then ['\\', '0']
  else if isPrintable char then [char]
  else '\\' :: 'u' :: '\x7b' :: (Nat.toDigits 16 char.toNat ++ ['\x7d'])

def debugString (text : String) : String :=
  String.ofList ('"' :: text.toList.flatMap debugChar ++ ['"'])

mutual

def debugText : FieldValue → String
  | .null => "Null"
  | .json value => "Value(" ++ value.text ++ ")"
  | .list items => "List([" ++ ", ".intercalate (debugTexts items) ++ "])"
  | .owned _ => "Owned(..)"
  | .typed value typeName =>
      "WithType \x7b value: " ++ debugText value ++ ", type_name: " ++ debugString typeName ++ " \x7d"

private def debugTexts : List FieldValue → List String
  | [] => []
  | value :: values => debugText value :: debugTexts values

end

end FieldValue

end GraphQL
