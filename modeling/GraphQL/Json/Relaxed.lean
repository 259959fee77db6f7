import GraphQL.Json.Basic
import GraphQL.Decimal.Reading
import GraphQL.Text.Blank
import GraphQL.Text.Digits

/-!
Reading JSON as people write it: with comments, commas before a closing bracket, keys without
quotes, texts in single quotes, and more ways to write numbers.
-/

namespace GraphQL

namespace RelaxedJson

/-! ## Space between tokens -/

private def isLineBreak (char : Char) : Bool :=
  char == '\n' || char == '\r' || char.toNat == 0x2028 || char.toNat == 0x2029

/-- White space, and the mark of byte order. The control character U+0085 is none. -/
private def isSpace (char : Char) : Bool :=
  (isWhiteSpace char && char.toNat != 0x85) || char.toNat == 0xFEFF

private def afterComment : List Char → Option (List Char)
  | '*' :: '/' :: rest => some rest
  | _ :: rest => afterComment rest
  | [] => none

private def skip : (steps : Nat) → List Char → List Char
  | 0, text => text
  | steps + 1, '/' :: '/' :: rest => skip steps (rest.dropWhile fun char => !isLineBreak char)
  | steps + 1, '/' :: '*' :: rest =>
      match afterComment rest with
      | some rest => skip steps rest
      | none => '/' :: '*' :: rest
  | steps + 1, char :: rest => if isSpace char then skip steps rest else char :: rest
  | _, [] => []

private def skipAll (text : List Char) : List Char := skip text.length text

/-! ## Texts and keys -/

/-- The character of an escape of four hexadecimal digits, and the rest. Two escapes may make up one
character. -/
private def readEscaped : List Char → Option (Char × List Char)
  | a :: b :: c :: d :: rest => do
      let first ← hexNumber? [a, b, c, d]
      match charOfCode? first with
      | some char => return (char, rest)
      | none =>
          match rest with
          | '\\' :: 'u' :: e :: f :: g :: h :: rest => do
              let char ← (hexNumber? [e, f, g, h]).bind (surrogatePair? first)
              return (char, rest)
          | _ => none
  | _ => none

private def escape? : Char → Option Char
  | 'b' => some (Char.ofNat 8)
  | 'f' => some (Char.ofNat 12)
  | 'n' => some '\n'
  | 'r' => some '\r'
  | 't' => some '\t'
  | 'v' => some (Char.ofNat 11)
  | other => if other.isDigit then none else some other

/-- The characters that an escape stands for, and what follows it. A line break behind the backslash
is left out, and the digit zero stands for the null character unless another digit follows. -/
private def readEscape : List Char → Option (List Char × List Char)
  | '\r' :: '\n' :: rest => some ([], rest)
  | 'u' :: rest => (readEscaped rest).map fun (char, rest) => ([char], rest)
  | 'x' :: a :: b :: rest =>
      ((hexNumber? [a, b]).bind charOfCode?).map fun char => ([char], rest)
  | 'x' :: _ => none
  | '0' :: rest =>
      if rest.head?.any Char.isDigit then none else some ([Char.ofNat 0], rest)
  | mark :: rest =>
      if isLineBreak mark then some ([], rest)
      else (escape? mark).map fun char => ([char], rest)
  | [] => none

private def readText (quote : Char) : (steps : Nat) → List Char → Option (List Char × List Char)
  | 0, _ => none
  | _, [] => none
  | steps + 1, char :: rest =>
      if char == quote then some ([], rest)
      else if char == '\\' then do
        let (chars, rest) ← readEscape rest
        let (text, rest) ← readText quote steps rest
        return (chars ++ text, rest)
      else if char == '\n' || char == '\r' then none
      else do
        let (text, rest) ← readText quote steps rest
        return (char :: text, rest)

private def readQuoted : List Char → Option (List Char × List Char)
  | '"' :: rest => readText '"' (rest.length + 1) rest
  | '\'' :: rest => readText '\'' (rest.length + 1) rest
  | _ => none

private def isKeyStart (char : Char) : Bool :=
  char.isAlpha || char == '_' || char == '$' || 0x7F < char.toNat

private def isKeyChar (char : Char) : Bool := isKeyStart char || char.isDigit

private def readName :
    (steps : Nat) → (isPart : Char → Bool) → List Char → Option (List Char × List Char)
  | steps + 1, isPart, '\\' :: 'u' :: rest => do
      let (char, rest) ← readEscaped rest
      if !isPart char then none
      let (name, rest) ← readName steps isKeyChar rest
      return (char :: name, rest)
  | steps + 1, isPart, char :: rest =>
      if isPart char && !isSpace char then do
        let (name, rest) ← readName steps isKeyChar rest
        return (char :: name, rest)
      else some ([], char :: rest)
  | _, _, rest => some ([], rest)

private def readKey (text : List Char) : Option (List Char × List Char) :=
  match text with
  | '"' :: _ => readQuoted text
  | '\'' :: _ => readQuoted text
  | _ => do
      let (name, rest) ← readName text.length isKeyStart text
      if name.isEmpty then none else some (name, rest)

/-! ## Numbers -/

/-- A whole number of 64 bits with sign. One that needs all 64 bits for its magnitude has no value,
and one beyond that is a double. -/
private def whole? (negative : Bool) (magnitude : Nat) : Option Json :=
  match int64? negative magnitude with
  | some value => some (.int value)
  | none =>
      if !negative && fitsCount magnitude then none
      else some (.number (.float (nearestDouble negative magnitude 0)))

private def readExponent : List Char → Option (Option Int × List Char)
  | [] => some (none, [])
  | mark :: rest =>
      if mark != 'e' && mark != 'E' then some (none, mark :: rest)
      else
        let (negative, rest) := match rest with
          | '-' :: rest => (true, rest)
          | '+' :: rest => (false, rest)
          | rest => (false, rest)
        let digits := rest.takeWhile Char.isDigit
        let magnitude : Int := digitsValue digits
        if digits.isEmpty then none
        else some (some (if negative then -magnitude else magnitude), rest.drop digits.length)

private def readDecimal (negative : Bool) (text : List Char) : Option (Json × List Char) := do
  let digits := text.takeWhile Char.isDigit
  let (fraction, rest) := match text.drop digits.length with
    | '.' :: more => (some (more.takeWhile Char.isDigit), more.dropWhile Char.isDigit)
    | rest => (none, rest)
  if digits.isEmpty && (fraction.getD []).isEmpty then none
  if 1 < digits.length && digits.head? == some '0' then none
  let (exponent, rest) ← readExponent rest
  let numeral : Numeral := ⟨negative, digits, fraction, exponent⟩
  if numeral.isWhole then
    let value ← whole? negative (digitsValue digits)
    return (value, rest)
  else
    let value ← Json.ofFloat? numeral.toFloat
    return (value, rest)

private def readMagnitude (negative : Bool) : List Char → Option (Json × List Char)
  | 'I' :: 'n' :: 'f' :: 'i' :: 'n' :: 'i' :: 't' :: 'y' :: rest =>
      some (.number (.float (nearestDouble negative 1 1000)), rest)
  | 'N' :: 'a' :: 'N' :: rest => some (.number (.float (0.0 / 0.0)), rest)
  | '0' :: mark :: rest =>
      if mark == 'x' || mark == 'X' then do
        let digits := rest.takeWhile fun char => (hexValue? char).isSome
        let magnitude ← hexNumber? digits
        if digits.isEmpty || !fitsCount magnitude then none
        let value ← whole? negative magnitude
        return (value, rest.drop digits.length)
      else readDecimal negative ('0' :: mark :: rest)
  | text => readDecimal negative text

private def readNumber : List Char → Option (Json × List Char)
  | '-' :: rest => readMagnitude true rest
  | '+' :: rest => readMagnitude false rest
  | text => readMagnitude false text

/-! ## Values -/

private def word? : String → Option Json
  | "null" => some .null
  | "true" => some (.bool true)
  | "false" => some (.bool false)
  | _ => none

mutual

private def readValue : (fuel : Nat) → List Char → Option (Json × List Char)
  | 0, _ => none
  | fuel + 1, text =>
      match text with
      | '[' :: rest => do
          let (items, rest) ← readItems fuel (skipAll rest)
          return (.array items, rest)
      | '\x7b' :: rest => do
          let (fields, rest) ← readFields fuel [] (skipAll rest)
          return (.object fields, rest)
      | '"' :: _ => (readQuoted text).map fun (text, rest) => (.string (String.ofList text), rest)
      | '\'' :: _ => (readQuoted text).map fun (text, rest) => (.string (String.ofList text), rest)
      | _ =>
          let word := text.takeWhile isKeyChar
          match word? (String.ofList word) with
          | some value => some (value, text.drop word.length)
          | none => readNumber text

private def readItems : (fuel : Nat) → List Char → Option (List Json × List Char)
  | 0, _ => none
  | _, ']' :: rest => some ([], rest)
  | fuel + 1, text => do
      let (item, rest) ← readValue fuel text
      match skipAll rest with
      | ',' :: rest => do
          let (items, rest) ← readItems fuel (skipAll rest)
          return (item :: items, rest)
      | ']' :: rest => some ([item], rest)
      | _ => none

private def readFields : (fuel : Nat) → List (String × Json) → List Char →
    Option (List (String × Json) × List Char)
  | 0, _, _ => none
  | _, fields, '\x7d' :: rest => some (fields, rest)
  | fuel + 1, fields, text => do
      let (key, rest) ← readKey text
      match skipAll rest with
      | ':' :: rest => do
          let (value, rest) ← readValue fuel (skipAll rest)
          let fields := Named.put fields (String.ofList key, value)
          match skipAll rest with
          | ',' :: rest => readFields fuel fields (skipAll rest)
          | '\x7d' :: rest => some (fields, rest)
          | _ => none
      | _ => none

end

def ofText? (text : String) : Option Json := do
  let (value, rest) ← readValue (2 * text.length + 2) (skipAll text.toList)
  if (skipAll rest).isEmpty then some value else none

end RelaxedJson

end GraphQL
