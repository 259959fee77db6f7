import GraphQL.Decimal.Reading
import GraphQL.Json.Basic
import GraphQL.Text.Digits

/-!
Reading RON: values as in JSON, and besides them structures and tuples in round brackets, options
and single characters. The names of structures do not count.
-/

namespace GraphQL

namespace Ron

/-! ## Space between tokens -/

/-- White space of patterns: that of ASCII, and the marks of lines and of writing directions. -/
private def isSpace (char : Char) : Bool :=
  let code := char.toNat
  code == 0x20 || (9 ≤ code && code ≤ 13) || code == 0x85 || code == 0x200E || code == 0x200F ||
    code == 0x2028 || code == 0x2029

/-- What follows the end of a comment that has `depth` others around it. -/
private def afterComment : (depth : Nat) → List Char → Option (List Char)
  | 0, '*' :: '/' :: rest => some rest
  | depth + 1, '*' :: '/' :: rest => afterComment depth rest
  | depth, '/' :: '*' :: rest => afterComment (depth + 1) rest
  | depth, _ :: rest => afterComment depth rest
  | _, [] => none

private def skip : (steps : Nat) → List Char → List Char
  | 0, text => text
  | steps + 1, '/' :: '/' :: rest => skip steps (rest.dropWhile (· != '\n'))
  | steps + 1, '/' :: '*' :: rest =>
      match afterComment 0 rest with
      | some rest => skip steps rest
      | none => '/' :: '*' :: rest
  | steps + 1, char :: rest => if isSpace char then skip steps rest else char :: rest
  | _, [] => []

private def skipAll (text : List Char) : List Char := skip text.length text

/-! ## Names -/

private def isNameStart (char : Char) : Bool := char.isAlpha || char == '_' || 0x7F < char.toNat

private def isNameChar (char : Char) : Bool := isNameStart char || char.isDigit

private def isRawNameChar (char : Char) : Bool :=
  isNameChar char || char == '.' || char == '+' || char == '-'

private def readName : List Char → Option (String × List Char)
  | 'r' :: '#' :: rest =>
      let name := rest.takeWhile isRawNameChar
      if name.isEmpty then none else some (String.ofList name, rest.drop name.length)
  | char :: rest =>
      if isNameStart char then
        let name := char :: rest.takeWhile isNameChar
        some (String.ofList name, rest.dropWhile isNameChar)
      else none
  | [] => none

/-! ## Texts -/

private def escape? : Char → Option Char
  | '\'' => some '\''
  | '"' => some '"'
  | '\\' => some '\\'
  | 'n' => some '\n'
  | 'r' => some '\r'
  | 't' => some '\t'
  | '0' => some (Char.ofNat 0)
  | _ => none

private def readEscape : List Char → Option (Char × List Char)
  | 'x' :: high :: low :: rest => do
      let code ← hexNumber? [high, low]
      if code < 0x80 then some (Char.ofNat code, rest) else none
  | 'u' :: '\x7b' :: rest => do
      let digits := rest.takeWhile (· != '\x7d')
      if digits.isEmpty || 6 < digits.length then none
      let char ← (hexNumber? digits).bind charOfCode?
      match rest.drop digits.length with
      | _ :: rest => some (char, rest)
      | [] => none
  | mark :: rest => (escape? mark).map (·, rest)
  | [] => none

private def readText : (steps : Nat) → List Char → Option (List Char × List Char)
  | _, '"' :: rest => some ([], rest)
  | steps + 1, '\\' :: rest => do
      let (char, rest) ← readEscape rest
      let (text, rest) ← readText steps rest
      return (char :: text, rest)
  | steps + 1, char :: rest => do
      let (text, rest) ← readText steps rest
      return (char :: text, rest)
  | _, _ => none

/-- A text without escapes, up to a quote with as many number signs behind it as stood before it. -/
private def readRawText (signs : Nat) : List Char → Option (List Char × List Char)
  | [] => none
  | char :: rest =>
      if char == '"' && rest.take signs == List.replicate signs '#' then some ([], rest.drop signs)
      else (readRawText signs rest).map fun (text, rest) => (char :: text, rest)

private def readQuoted : List Char → Option (List Char × List Char)
  | '"' :: rest => readText (rest.length + 1) rest
  | 'r' :: rest =>
      let signs := (rest.takeWhile (· == '#')).length
      match rest.drop signs with
      | '"' :: rest => readRawText signs rest
      | _ => none
  | _ => none

private def readCharacter : List Char → Option (Char × List Char)
  | '\'' :: '\\' :: rest =>
      match readEscape rest with
      | some (char, '\'' :: rest) => some (char, rest)
      | _ => none
  | '\'' :: char :: '\'' :: rest => some (char, rest)
  | _ => none

/-! ## Numbers -/

private def splitBase : List Char → Nat × List Char
  | '0' :: 'x' :: rest => (16, rest)
  | '0' :: 'o' :: rest => (8, rest)
  | '0' :: 'b' :: rest => (2, rest)
  | text => (10, text)

private def isWholeChar (char : Char) : Bool := (hexValue? char).isSome || char == '_'

private def isDoubleChar (char : Char) : Bool :=
  char.isDigit || char == 'e' || char == 'E' || char == '.' || char == '+' || char == '-' ||
    char == '_'

/-- The value of digits of a base, between and behind which underscores may stand. -/
private def inBase? (base : Nat) (digits : List Char) : Option Nat :=
  if digits.isEmpty || digits.head? == some '_' then none
  else (digits.filter (· != '_')).foldlM
    (fun value digit => do
      let digit ← hexValue? digit
      if digit < base then some (base * value + digit) else none) 0

private def hasKind (suffix : String) (value : Int) : Bool :=
  match suffix with
  | "u8" => 0 ≤ value && value ≤ 0xFF
  | "u16" => 0 ≤ value && value ≤ 0xFFFF
  | "u32" => 0 ≤ value && value ≤ 0xFFFFFFFF
  | "u64" => (countOf? value).isSome
  | "i8" => -0x80 ≤ value && value ≤ 0x7F
  | "i16" => -0x8000 ≤ value && value ≤ 0x7FFF
  | "i32" => fitsInt32 value
  | "i64" => fitsInt64 value
  | "" => fitsInt64 value || (countOf? value).isSome
  | _ => false

/-- A whole number without its sign, of 64 bits or of the kind that its suffix names. -/
private def readWhole (negative : Bool) (text : List Char) : Option (Int × List Char) := do
  let (base, text) := splitBase text
  let digits := text.takeWhile isWholeChar
  let magnitude ← inBase? base digits
  let value : Int := if negative then -(magnitude : Int) else magnitude
  let rest := text.drop digits.length
  let suffix := rest.takeWhile isNameChar
  if hasKind (String.ofList suffix) value then some (value, rest.drop suffix.length) else none

private def readDouble (negative : Bool) (text : List Char) : Option (Float × List Char) := do
  let digits := text.takeWhile isDoubleChar
  if digits.head? == some '_' then none
  let value ← decimal? negative (digits.filter (· != '_'))
  match text.drop digits.length with
  | 'f' :: '6' :: '4' :: rest => some (value, rest)
  | 'f' :: '3' :: '2' :: rest => some (value.toFloat32.toFloat, rest)
  | rest => some (value, rest)

private def special? (negative : Bool) (word : String) : Option Float :=
  if ["inf", "inff32", "inff64"].contains word then some (nearestDouble negative 1 1000)
  else if ["NaN", "NaNf32", "NaNf64"].contains word then some (0.0 / 0.0)
  else none

/-- A number. Whole numbers of more than 64 bits are doubles. -/
private def readNumber (text : List Char) : Option (Json × List Char) :=
  let (negative, text) := splitSign text
  let word := text.takeWhile isNameChar
  match special? negative (String.ofList word) with
  | some value => some (.number (.float value), text.drop word.length)
  | none =>
      let double := (readDouble negative text).map fun (value, rest) =>
        (.number (.float value), rest)
      if (text.takeWhile isWholeChar).length < (text.takeWhile isDoubleChar).length then double
      else
        match readWhole negative text with
        | some (value, rest) => some (.int value, rest)
        | none => double

private def isNumberStart (char : Char) : Bool :=
  char.isDigit || char == '+' || char == '-' || char == '.'

/-! ## Values -/

private def hasNames (text : List Char) : Bool :=
  match readName text with
  | some (_, rest) => (skipAll rest).head? == some ':'
  | none => false

private def readKey (inStructure : Bool) (text : List Char) : Option (String × List Char) :=
  if inStructure then readName text
  else
    match readCharacter text with
    | some (char, rest) => some (String.ofList [char], rest)
    | none => (readQuoted text).map fun (key, rest) => (String.ofList key, rest)

private def afterComma? (close : Char) (text : List Char) : Option (List Char) :=
  match skipAll text with
  | ',' :: rest => some (skipAll rest)
  | char :: rest => if char == close then some (char :: rest) else none
  | [] => none

mutual

private def readValue : (fuel : Nat) → List Char → Option (Json × List Char)
  | 0, _ => none
  | fuel + 1, text =>
      match text with
      | '[' :: rest => do
          let (items, rest) ← readItems fuel ']' (skipAll rest)
          return (.array items, rest)
      | '\x7b' :: rest => do
          let (fields, rest) ← readFields fuel '\x7d' [] (skipAll rest)
          return (.object fields, rest)
      | '(' :: ')' :: rest => some (.null, rest)
      | '(' :: rest => readBody fuel (skipAll rest)
      | '\'' :: _ => (readCharacter text).map fun (char, rest) =>
          (.string (String.ofList [char]), rest)
      | char :: _ =>
          if isNumberStart char then readNumber text
          else
            match readQuoted text with
            | some (text, rest) => some (.string (String.ofList text), rest)
            | none => do
                let (name, rest) ← readName text
                readNamed fuel name rest
      | [] => none

private def readNamed : (fuel : Nat) → (name : String) → List Char → Option (Json × List Char)
  | 0, _, _ => none
  | fuel + 1, name, text =>
      if name = "true" then some (.bool true, text)
      else if name = "false" then some (.bool false, text)
      else if name = "None" then some (.null, text)
      else
        match special? false name with
        | some value => some (.number (.float value), text)
        | none =>
            match skipAll text with
            | '(' :: rest =>
                if name = "Some" then do
                  let (value, rest) ← readValue fuel (skipAll rest)
                  match ← afterComma? ')' rest with
                  | ')' :: rest => some (value, rest)
                  | _ => none
                else readBody fuel (skipAll rest)
            | _ => if name = "Some" then none else some (.null, text)

private def readBody : (fuel : Nat) → List Char → Option (Json × List Char)
  | 0, _ => none
  | fuel + 1, text =>
      if hasNames text then do
        let (fields, rest) ← readFields fuel ')' [] text
        return (.object fields, rest)
      else do
        let (items, rest) ← readItems fuel ')' text
        return (.array items, rest)

private def readItems : (fuel : Nat) → (close : Char) → List Char → Option (List Json × List Char)
  | 0, _, _ => none
  | fuel + 1, close, text =>
      if text.head? == some close then some ([], text.drop 1)
      else do
        let (item, rest) ← readValue fuel text
        let rest ← afterComma? close rest
        let (items, rest) ← readItems fuel close rest
        return (item :: items, rest)

private def readFields : (fuel : Nat) → (close : Char) → List (String × Json) → List Char →
    Option (List (String × Json) × List Char)
  | 0, _, _, _ => none
  | fuel + 1, close, fields, text =>
      if text.head? == some close then some (fields, text.drop 1)
      else do
        let (key, rest) ← readKey (close == ')') text
        match skipAll rest with
        | ':' :: rest => do
            let (value, rest) ← readValue fuel (skipAll rest)
            let rest ← afterComma? close rest
            readFields fuel close (Named.put fields (key, value)) rest
        | _ => none

end

/-! ## Documents -/

/-- The extensions that a text may enable. They do not change how values without types are read. -/
def extensions : List String :=
  ["unwrap_newtypes", "implicit_some", "unwrap_variant_newtypes", "explicit_struct_names"]

private def afterExtensions : (steps : Nat) → List Char → Option (List Char)
  | 0, _ => none
  | steps + 1, text => do
      let (name, rest) ← readName text
      if !extensions.contains name then none
      match ← afterComma? ')' rest with
      | ')' :: rest =>
          match skipAll rest with
          | ']' :: rest => some rest
          | _ => none
      | rest => afterExtensions steps rest

private def skipAttributes : (steps : Nat) → List Char → Option (List Char)
  | steps + 1, '#' :: rest => do
      match skipAll rest with
      | '!' :: rest =>
          match skipAll rest with
          | '[' :: rest => do
              let (name, rest) ← readName (skipAll rest)
              if name ≠ "enable" then none
              match skipAll rest with
              | '(' :: rest => do
                  let rest ← afterExtensions (rest.length + 1) (skipAll rest)
                  skipAttributes steps (skipAll rest)
              | _ => none
          | _ => none
      | _ => none
  | _, text => some text

def ofText? (text : String) : Option Json := do
  let text ← skipAttributes text.length (skipAll text.toList)
  let (value, rest) ← readValue (3 * text.length + 3) text
  if (skipAll rest).isEmpty then some value else none

end Ron

end GraphQL
