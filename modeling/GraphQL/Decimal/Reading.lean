import GraphQL.Decimal.Bounds

/-!
Reading decimal numbers: a whole part, an optional fraction and an optional exponent.
-/

namespace GraphQL

def digitsValue (digits : List Char) : Nat :=
  digits.foldl (fun value digit => 10 * value + (digit.toNat - '0'.toNat)) 0

/-- The double nearest to `digits * 10 ^ exponent`. Exponents beyond every double are answered
without computing the power. -/
def nearestDouble (negative : Bool) (digits : Nat) (exponent : Int) : Float :=
  let size := (Nat.toDigits 10 digits).length
  let magnitude : Float :=
    if digits = 0 then 0.0
    else if 400 < exponent + size then Float.ofBits 0x7FF0000000000000
    else if exponent + size < -400 then 0.0
    else Float.ofScientific digits (exponent < 0) exponent.natAbs
  if negative then -magnitude else magnitude

/-! ## Numbers of several formats -/

def splitSign : List Char → Bool × List Char
  | '-' :: rest => (true, rest)
  | '+' :: rest => (false, rest)
  | text => (false, text)

def int64? (negative : Bool) (magnitude : Nat) : Option Int :=
  let value : Int := if negative then -(magnitude : Int) else magnitude
  if fitsInt64 value then some value else none

private def exponent? : List Char → Option Int
  | [] => some 0
  | mark :: text =>
      let (negative, digits) := splitSign text
      if (mark != 'e' && mark != 'E') || digits.isEmpty || !digits.all Char.isDigit then none
      else
        let magnitude : Int := digitsValue digits
        some (if negative then -magnitude else magnitude)

def decimal? (negative : Bool) (text : List Char) : Option Float := do
  let whole := text.takeWhile Char.isDigit
  let (fraction, rest) := match text.dropWhile Char.isDigit with
    | '.' :: more => (more.takeWhile Char.isDigit, more.dropWhile Char.isDigit)
    | rest => ([], rest)
  if whole.isEmpty && fraction.isEmpty then none
  let exponent ← exponent? rest
  return nearestDouble negative (digitsValue (whole ++ fraction)) (exponent - fraction.length)

/-! ## Numerals in parts -/

structure Numeral where
  negative : Bool
  whole : List Char
  fraction : Option (List Char)
  exponent : Option Int

namespace Numeral

def isWhole (numeral : Numeral) : Bool := numeral.fraction.isNone && numeral.exponent.isNone

def toInt (numeral : Numeral) : Int :=
  let magnitude : Int := digitsValue numeral.whole
  if numeral.negative then -magnitude else magnitude

def toFloat (numeral : Numeral) : Float :=
  let fraction := numeral.fraction.getD []
  nearestDouble numeral.negative (digitsValue (numeral.whole ++ fraction))
    (numeral.exponent.getD 0 - fraction.length)

end Numeral

end GraphQL
