import GraphQL.Document.Literal
import GraphQL.Decimal.Layout
import GraphQL.Text.Blank
import GraphQL.Text.Lines

/-!
The text of values and types, as error messages quote them.
-/

namespace GraphQL

namespace Literal

def isPlain (char : Char) : Bool := 0x20 ≤ char.toNat && char.toNat ≤ 0xFFFF

def fourDigits (number : Nat) : List Char :=
  let digits := Nat.toDigits 10 number
  List.replicate (4 - digits.length) '0' ++ digits

/-- One character of a quoted string. A character that is not plain is written as its code in
decimal. -/
def quotedChar (char : Char) : List Char :=
  if char = '\r' then ['\\', 'r']
  else if char = '\n' then ['\\', 'n']
  else if char = '\t' then ['\\', 't']
  else if char = '"' then ['\\', '"']
  else if char = '\\' then ['\\', '\\']
  else if isPlain char then [char]
  else '\\' :: 'u' :: fourDigits char.toNat

def escapeTriple : List Char → List Char
  | '"' :: '"' :: '"' :: rest => '\\' :: '"' :: '"' :: '"' :: escapeTriple rest
  | char :: rest => char :: escapeTriple rest
  | [] => []

def blockLine (line : List Char) : List Char :=
  if isAllWhiteSpace line then ['\n'] else ' ' :: ' ' :: escapeTriple line ++ ['\n']

/-- A string: a block of lines if it has line feeds and nothing that needs a code, else quoted. -/
def stringText (value : String) : String :=
  let chars := value.toList
  let hasCode := chars.any fun char =>
    !(char == '\n' || char == '\r' || char == '\t' || isPlain char)
  if chars.contains '\n' && !hasCode then
    String.ofList ("\"\"\"\n".toList ++ (textLines chars).flatMap blockLine ++ "\"\"\"".toList)
  else String.ofList ('"' :: chars.flatMap quotedChar ++ ['"'])

mutual

def text : Literal → String
  | .variable name => "$" ++ name
  | .int value => toString value
  | .float value => FloatLayout.literal.write (Double.ofFloat value)
  | .string value => stringText value
  | .boolean true => "true"
  | .boolean false => "false"
  | .null => "null"
  | .enum name => name
  | .list items => "[" ++ ", ".intercalate (itemTexts items) ++ "]"
  | .object fields => "\x7b" ++ ", ".intercalate (fieldTexts fields) ++ "\x7d"

private def itemTexts : List Literal → List String
  | [] => []
  | item :: items => text item :: itemTexts items

private def fieldTexts : List (String × Literal) → List String
  | [] => []
  | (name, value) :: fields => (name ++ ": " ++ text value) :: fieldTexts fields

end

end Literal

def TypeExpr.text : TypeExpr → String
  | .named name => name
  | .list item => "[" ++ item.text ++ "]"
  | .nonNull inner => inner.text ++ "!"

end GraphQL
