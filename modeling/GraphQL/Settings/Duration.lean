import GraphQL.Text.Blank
import GraphQL.Decimal.Reading

/-!
Durations as people write them: numbers with units one after another, such as `1h 5m` or `1.5s`. A
duration counts nanoseconds. All parts have to fit 64 bits.
-/

namespace GraphQL

namespace Duration

inductive TimeUnit where
  | seconds (count : Nat)
  | nanoseconds (count : Nat)
deriving DecidableEq, Repr

private def minute : Nat := 60
private def hour : Nat := 60 * minute
private def day : Nat := 24 * hour

private def units : List (List String × TimeUnit) :=
  [(["nanos", "nsec", "ns"], .nanoseconds 1),
    (["usec", "us", "µs"], .nanoseconds 1000),
    (["millis", "msec", "ms"], .nanoseconds 1000000),
    (["seconds", "second", "secs", "sec", "s"], .seconds 1),
    (["minutes", "minute", "mins", "min", "m"], .seconds minute),
    (["hours", "hour", "hrs", "hr", "h"], .seconds hour),
    (["days", "day", "d"], .seconds day),
    (["weeks", "week", "wks", "wk", "w"], .seconds (7 * day)),
    (["months", "month", "M"], .seconds (3044 * day / 100)),
    (["years", "year", "yrs", "yr", "y"], .seconds (36525 * day / 100))]

private def unit? (name : List Char) : Option TimeUnit :=
  (units.find? fun entry => entry.1.contains (String.ofList name)).map Prod.snd

private def isUnitChar (char : Char) : Bool := char.isAlpha || char == 'µ'

private def checked (count : Nat) : Option Nat := if fitsCount count then some count else none

private def second : Nat := 1000000000

structure Amount where
  whole : Nat
  fraction : Option (List Char)

private def exactly (numerator denominator : Nat) : Option Nat :=
  if numerator % denominator = 0 then some (numerator / denominator) else none

/-- The nanoseconds of a fraction of a unit. It has to be a whole number of nanoseconds for a minute
or less, and a whole number of seconds for longer units. Nanoseconds have no fractions. -/
private def fractionOf (unit : TimeUnit) (digits : List Char) : Option Nat := do
  let numerator ← checked (digitsValue digits)
  let denominator ← checked (power 10 digits.length)
  match unit with
  | .nanoseconds count =>
      if count = 1 then none else exactly (← checked (numerator * count)) denominator
  | .seconds count =>
      if count ≤ minute then exactly (← checked (numerator * (count * second))) denominator
      else return (← exactly (← checked (numerator * count)) denominator) * second

private def nanoseconds (amount : Amount) (unit : TimeUnit) : Option Nat := do
  let whole ← match unit with
    | .nanoseconds count => checked (amount.whole * count)
    | .seconds count => (checked (amount.whole * count)).map (· * second)
  let fraction ← match amount.fraction with
    | none => some 0
    | some digits => fractionOf unit digits
  return whole + fraction

def add (total part : Nat) : Option Nat :=
  if fitsCount ((total + part) / second) then some (total + part) else none

private def isNumberChar (char : Char) : Bool := char.isDigit || isWhiteSpace char

private def digitsOf (text : List Char) : List Char := text.filter Char.isDigit

private def readParts : (rounds : Nat) → (total : Nat) → List Char → Option Nat
  | 0, _, _ => none
  | rounds + 1, total, text => do
      let text := text.dropWhile isWhiteSpace
      if text.isEmpty then return total
      if !(text.head?.any Char.isDigit) then none
      let whole ← checked (digitsValue (digitsOf (text.takeWhile isNumberChar)))
      let afterWhole := text.dropWhile isNumberChar
      let (fraction, afterNumber) ← match afterWhole with
        | '.' :: rest =>
            let digits := digitsOf (rest.takeWhile isNumberChar)
            if digits.isEmpty then none else some (some digits, rest.dropWhile isNumberChar)
        | _ => some (none, afterWhole)
      let unit ← unit? (afterNumber.takeWhile isUnitChar)
      let rest := afterNumber.dropWhile isUnitChar
      let part ← nanoseconds ⟨whole, fraction⟩ unit
      let total ← add total part
      readParts rounds total rest

/-- The nanoseconds of a written duration. Only zero may stand without a unit. -/
def ofText? (text : String) : Option Nat :=
  if text = "0" then some 0
  else if isAllWhiteSpace text.toList then none
  else readParts (text.length + 1) 0 text.toList

end Duration

end GraphQL
