import GraphQL.Json.Basic
import GraphQL.Decimal.Layout

/-!
Compact JSON text. Strings escape the quote, the backslash and the control characters below
U+0020, and nothing else.
-/

namespace GraphQL

namespace Json

def escape (char : Char) : List Char :=
  if char = '"' then ['\\', '"']
  else if char = '\\' then ['\\', '\\']
  else if char = '\x08' then ['\\', 'b']
  else if char = '\t' then ['\\', 't']
  else if char = '\n' then ['\\', 'n']
  else if char = '\x0c' then ['\\', 'f']
  else if char = '\r' then ['\\', 'r']
  else if char.toNat < 0x20 then
    '\\' :: 'u' :: '0' :: '0' :: Nat.digitChar (char.toNat / 16) ::
      [Nat.digitChar (char.toNat % 16)]
  else [char]

def quote (text : String) : String :=
  String.ofList ('"' :: text.toList.flatMap escape ++ ['"'])

end Json

def Number.text : Number → String
  | .int value => toString value
  | .float value => FloatLayout.json.write (Double.ofFloat value)

namespace Json

mutual

def text : Json → String
  | .null => "null"
  | .bool true => "true"
  | .bool false => "false"
  | .number value => value.text
  | .string value => quote value
  | .array items => "[" ++ ",".intercalate (itemTexts items) ++ "]"
  | .object fields => "\x7b" ++ ",".intercalate (fieldTexts fields) ++ "\x7d"

def itemTexts : List Json → List String
  | [] => []
  | item :: items => text item :: itemTexts items

def fieldTexts : List (String × Json) → List String
  | [] => []
  | (key, value) :: fields => (quote key ++ ":" ++ text value) :: fieldTexts fields

end

end Json

end GraphQL
