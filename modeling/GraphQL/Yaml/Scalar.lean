import GraphQL.Decimal.Reading
import GraphQL.Text.Digits
import GraphQL.Yaml.Tag

/-!
The values of YAML, and what a scalar stands for: by its tag, or without one by its form.
-/

namespace GraphQL

namespace Yaml

/-- A value. Numbers with a fraction are kept as they are written. -/
inductive Value where
  | null
  | bool (value : Bool)
  | int (value : Int)
  | real (text : String)
  | string (value : String)
  | sequence (items : List Value)
  | mapping (entries : List (Value × Value))
  /-- A scalar that does not have the form of its tag. -/
  | bad

instance : Inhabited Value := ⟨.null⟩

namespace Scalar

private def int? (base : Nat) (text : List Char) : Option Int := do
  let (negative, digits) := splitSign text
  if digits.isEmpty then none
  let magnitude ← digits.foldlM
    (fun value digit => do
      let digit ← hexValue? digit
      if digit < base then some (base * value + digit) else none) 0
  int64? negative magnitude

private def marked? : List Char → Option Int
  | '0' :: 'x' :: digits => int? 16 digits
  | '0' :: 'o' :: digits => int? 8 digits
  | '+' :: digits => int? 10 digits
  | _ => none

def double? (text : List Char) : Option Float :=
  let (negative, text) := splitSign text
  decimal? negative text

private def specialReals : List String :=
  [".inf", ".Inf", ".INF", "+.inf", "+.Inf", "+.INF", "-.inf", "-.Inf", "-.INF",
    ".nan", ".NaN", ".NAN"]

private def isReal (text : String) : Bool :=
  specialReals.contains text || (double? text.toList).isSome

private def bool? (text : String) : Option Bool :=
  if ["true", "True", "TRUE"].contains text then some true
  else if ["false", "False", "FALSE"].contains text then some false
  else none

def plain (text : String) : Value :=
  match marked? text.toList with
  | some value => .int value
  | none =>
      if ["", "~", "null"].contains text then .null
      else
        match bool? text with
        | some value => .bool value
        | none =>
            match int? 10 text.toList with
            | some value => .int value
            | none => if isReal text then .real text else .string text

private def tagged (tag : Tag) (text : String) : Value :=
  if tag.handle ≠ Tag.core then .string text
  else match tag.suffix with
    | "bool" => ((bool? text).map Value.bool).getD .bad
    | "int" => ((int? 10 text.toList).map Value.int).getD .bad
    | "float" => if isReal text then .real text else .bad
    | "null" => if ["~", "null"].contains text then .null else .bad
    | _ => .string text

/-- The value of a scalar. In quotes or as a block it is a text, whatever its tag says. -/
def value (isPlain : Bool) (tag : Option Tag) (text : String) : Value :=
  if !isPlain then .string text
  else match tag with
    | some tag => tagged tag text
    | none => plain text

end Scalar

end Yaml

end GraphQL
