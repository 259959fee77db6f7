import GraphQL.Decimal.Reading
import GraphQL.Json.Basic
import GraphQL.Text.Digits

/-!
Scalars of TOML: texts in four kinds of quotes, numbers, truth values and times. Times become texts.
-/

namespace GraphQL

namespace Toml

def afterBreak? : List Char → Option (List Char)
  | '\n' :: rest => some rest
  | '\r' :: '\n' :: rest => some rest
  | _ => none

private def isBlank (char : Char) : Bool := char == ' ' || char == '\t'

def skipBlanks (text : List Char) : List Char := text.dropWhile isBlank

def isPlain (char : Char) : Bool := char == '\t' || (0x20 ≤ char.toNat && char.toNat != 0x7F)

/-! ## Texts -/

private def escape? : Char → Option Char
  | 'b' => some (Char.ofNat 8)
  | 't' => some '\t'
  | 'n' => some '\n'
  | 'f' => some (Char.ofNat 12)
  | 'r' => some '\r'
  | 'e' => some (Char.ofNat 27)
  | '"' => some '"'
  | '\\' => some '\\'
  | _ => none

private def escapeDigits? : Char → Option Nat
  | 'x' => some 2
  | 'u' => some 4
  | 'U' => some 8
  | _ => none

private def readEscape : List Char → Option (Char × List Char)
  | [] => none
  | mark :: rest =>
      match escapeDigits? mark with
      | some count =>
          if rest.length < count then none
          else ((hexNumber? (rest.take count)).bind charOfCode?).map (·, rest.drop count)
      | none => (escape? mark).map (·, rest)

def readLineText (quote : Char) : (steps : Nat) → List Char → Option (List Char × List Char)
  | 0, _ => none
  | _, [] => none
  | steps + 1, char :: rest =>
      if char == quote then some ([], rest)
      else if char == '\\' && quote == '"' then do
        let (char, rest) ← readEscape rest
        let (text, rest) ← readLineText quote steps rest
        return (char :: text, rest)
      else if !isPlain char then none
      else do
        let (text, rest) ← readLineText quote steps rest
        return (char :: text, rest)

/-- White space behind a backslash at the end of a line, up to the next content. -/
private def skipJoined : (steps : Nat) → List Char → List Char
  | 0, text => text
  | steps + 1, text =>
      match afterBreak? (skipBlanks text) with
      | some rest => skipJoined steps rest
      | none => skipBlanks text

/-- A text over several lines, up to three quotes. One or two more quotes there belong to it. -/
private def readLinesText (quote : Char) :
    (steps : Nat) → List Char → Option (List Char × List Char)
  | 0, _ => none
  | _, [] => none
  | steps + 1, char :: rest =>
      let quotes := ((char :: rest).takeWhile (· == quote)).length
      if 3 ≤ quotes then
        let inside := min (quotes - 3) 2
        some (List.replicate inside quote, (char :: rest).drop (inside + 3))
      else if char == '\\' && quote == '"' then
        if (afterBreak? (skipBlanks rest)).isSome then
          readLinesText quote steps (skipJoined rest.length rest)
        else do
          let (char, rest) ← readEscape rest
          let (text, rest) ← readLinesText quote steps rest
          return (char :: text, rest)
      else
        match afterBreak? (char :: rest) with
        | some after => do
            let (text, rest) ← readLinesText quote steps after
            return ('\n' :: text, rest)
        | none => do
            if !isPlain char then none
            let (text, rest) ← readLinesText quote steps rest
            return (char :: text, rest)

/-- A text in quotes of one kind. A line break right behind three of them is left out. -/
def readTextIn (quote : Char) (text : List Char) : Option (List Char × List Char) :=
  if text.take 3 == [quote, quote, quote] then
    let rest := (afterBreak? (text.drop 3)).getD (text.drop 3)
    readLinesText quote (rest.length + 1) rest
  else readLineText quote text.length (text.drop 1)

/-! ## Numbers -/

private def digits? (isDigit : Char → Bool) (text : List Char) : Option (List Char) :=
  let rec go : (afterDigit : Bool) → List Char → Option (List Char)
    | afterDigit, [] => if afterDigit then some [] else none
    | afterDigit, char :: rest =>
        if isDigit char then (go true rest).map (char :: ·)
        else if char == '_' && afterDigit then go false rest
        else none
  go false text

private def inBase (base : Nat) (digits : List Char) : Nat :=
  digits.foldl (fun value digit => base * value + (hexValue? digit).getD 0) 0

private def int? : List Char → Option Int
  | '0' :: 'x' :: rest =>
      (digits? (fun char => (hexValue? char).isSome) rest).bind fun digits =>
        int64? false (inBase 16 digits)
  | '0' :: 'o' :: rest =>
      (digits? (fun char => '0' ≤ char && char ≤ '7') rest).bind fun digits =>
        int64? false (inBase 8 digits)
  | '0' :: 'b' :: rest =>
      (digits? (fun char => char == '0' || char == '1') rest).bind fun digits =>
        int64? false (inBase 2 digits)
  | text => do
      let (negative, text) := splitSign text
      let digits ← digits? Char.isDigit text
      if 1 < digits.length && digits.head? == some '0' then none
      int64? negative (digitsValue digits)

private def power? (text : List Char) : Option Int := do
  let (negative, text) := splitSign text
  let digits ← digits? Char.isDigit text
  let magnitude : Int := digitsValue digits
  return if negative then -magnitude else magnitude

private def double? (text : List Char) : Option Float := do
  let (negative, text) := splitSign text
  if text = "inf".toList then return nearestDouble negative 1 1000
  if text = "nan".toList then return 0.0 / 0.0
  let isMark (char : Char) : Bool := char == 'e' || char == 'E'
  let whole ← digits? Char.isDigit (text.takeWhile fun char => char != '.' && !isMark char)
  if 1 < whole.length && whole.head? == some '0' then none
  let rest := text.dropWhile fun char => char != '.' && !isMark char
  let (fraction, rest) ← match rest with
    | '.' :: rest => do
        let fraction ← digits? Char.isDigit (rest.takeWhile fun char => !isMark char)
        some (fraction, rest.dropWhile fun char => !isMark char)
    | rest => some ([], rest)
  let exponent ← match rest with
    | [] => if fraction.isEmpty then none else some 0
    | _ :: rest => power? rest
  return nearestDouble negative (digitsValue (whole ++ fraction)) (exponent - fraction.length)

/-! ## Times -/

private def twoDigits? (least most : Nat) : List Char → Option (List Char × List Char)
  | first :: second :: rest =>
      let value := digitsValue [first, second]
      if first.isDigit && second.isDigit && least ≤ value && value ≤ most then
        some ([first, second], rest)
      else none
  | _ => none

private def daysIn (year month : Nat) : Nat :=
  if month = 2 then
    if year % 4 = 0 ∧ (year % 100 ≠ 0 ∨ year % 400 = 0) then 29 else 28
  else if month = 4 ∨ month = 6 ∨ month = 9 ∨ month = 11 then 30
  else 31

private def readDate (text : List Char) : Option (List Char × List Char) := do
  let year := text.take 4
  if year.length ≠ 4 || !year.all Char.isDigit then none
  match text.drop 4 with
  | '-' :: rest => do
      let (month, rest) ← twoDigits? 1 12 rest
      match rest with
      | '-' :: rest => do
          let (day, rest) ← twoDigits? 1 (daysIn (digitsValue year) (digitsValue month)) rest
          return (year ++ ['-'] ++ month ++ ['-'] ++ day, rest)
      | _ => none
  | _ => none

/-- The digits of a fraction of a second. At most nine count, and zeros at the end do not. -/
private def secondFraction (digits : List Char) : List Char :=
  let kept := ((digits.take 9).reverse.dropWhile (· == '0')).reverse
  if kept.isEmpty then ['.'] else '.' :: kept

/-- A time of day. Seconds may be left out. -/
private def readTime (text : List Char) : Option (List Char × List Char) := do
  let (hour, rest) ← twoDigits? 0 23 text
  match rest with
  | ':' :: rest => do
      let (minute, rest) ← twoDigits? 0 59 rest
      let short := hour ++ [':'] ++ minute
      match rest with
      | ':' :: rest => do
          let (second, rest) ← twoDigits? 0 60 rest
          let time := short ++ [':'] ++ second
          match rest with
          | '.' :: rest =>
              let digits := rest.takeWhile Char.isDigit
              if digits.isEmpty then none
              else some (time ++ secondFraction digits, rest.dropWhile Char.isDigit)
          | rest => some (time, rest)
      | rest => some (short, rest)
  | _ => none

private def readOffset : List Char → Option (List Char × List Char)
  | [] => some ([], [])
  | sign :: rest =>
      if sign == 'Z' || sign == 'z' then some (['Z'], rest)
      else if sign != '+' && sign != '-' then some ([], sign :: rest)
      else do
        let (hour, rest) ← twoDigits? 0 23 rest
        match rest with
        | ':' :: rest => do
            let (minute, rest) ← twoDigits? 0 59 rest
            return (sign :: hour ++ [':'] ++ minute, rest)
        | _ => none

/-- A date, a time of day, or both with a letter or space between them and an offset behind. -/
private def readMoment (text : List Char) : Option (List Char × List Char) :=
  match readDate text with
  | none => readTime text
  | some (date, rest) =>
      match rest with
      | mark :: more =>
          if mark == 'T' || mark == 't' || (mark == ' ' && more.head?.any Char.isDigit) then do
            let (time, rest) ← readTime more
            let (offset, rest) ← readOffset rest
            return (date ++ ['T'] ++ time ++ offset, rest)
          else some (date, rest)
      | [] => some (date, [])

/-! ## All scalars -/

private def isWordChar (char : Char) : Bool :=
  char.isAlphanum || char == '_' || char == '+' || char == '-' || char == '.'

private def word? (word : List Char) : Option Json :=
  if word = "true".toList then some (.bool true)
  else if word = "false".toList then some (.bool false)
  else
    match int? word with
    | some value => some (.int value)
    | none => (double? word).map fun value => .number (.float value)

def readWord (text : List Char) : Option (Json × List Char) :=
  let isMoment := match text with
    | _ :: _ :: ':' :: _ => true
    | _ :: _ :: _ :: _ :: '-' :: _ => text.take 4 |>.all Char.isDigit
    | _ => false
  if isMoment then
    (readMoment text).map fun (moment, rest) => (.string (String.ofList moment), rest)
  else
    let word := text.takeWhile isWordChar
    (word? word).map (·, text.drop word.length)

end Toml

end GraphQL
