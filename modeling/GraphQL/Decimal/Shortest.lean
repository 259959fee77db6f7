import GraphQL.Decimal.Binary

/-!
The fewest decimal digits that read back as the same double. A double `m * 2 ^ q` is the nearest
one to every real in an interval around it, whose ends belong to it iff `m` is even. The decimal
grids of one digit, two digits and so on are tried in turn; on each the two neighbours of the value
are the only candidates, since a grid point in the interval leaves one of them in it too.
-/

namespace GraphQL

inductive Tie where
  | toEven
  | upward
deriving DecidableEq, Repr

structure Decimal where
  digits : Nat
  exponent : Int
deriving DecidableEq, Repr

namespace Decimal

def digitCount (number : Nat) : Nat := (Nat.toDigits 10 number).length

def leadingExponent (numerator denominator : Nat) : Int :=
  if denominator ≤ numerator then (digitCount (numerator / denominator) : Int) - 1
  else
    let scale := (denominator + numerator - 1) / numerator
    if scale ≤ 1 then 0 else -(digitCount (scale - 1) : Int)

/-- A magnitude in quarter units of its last place, with the ends of the interval of reals that
read back as it. The lower half is narrower just above a power of two. -/
structure Interval where
  low : Nat
  centre : Nat
  high : Nat
  unit : Int
  closed : Bool

def interval (magnitude : Magnitude) : Interval :=
  let atBoundary := magnitude.significand = Double.leastSignificand ∧ -1074 < magnitude.exponent
  let centre := 4 * magnitude.significand
  { low := if atBoundary then centre - 1 else centre - 2
    centre := centre
    high := centre + 2
    unit := magnitude.exponent - 2
    closed := magnitude.significand % 2 = 0 }

def Interval.readsBack (interval : Interval) (grid : Int) (candidate : Nat) : Bool :=
  let decimal := candidate * power 10 grid * power 2 (-interval.unit)
  let scale := power 2 interval.unit * power 10 (-grid)
  if interval.closed then interval.low * scale ≤ decimal && decimal ≤ interval.high * scale
  else interval.low * scale < decimal && decimal < interval.high * scale

def Interval.onGrid (interval : Interval) (tie : Tie) (grid : Int) : Option Nat :=
  let numerator := interval.centre * power 2 interval.unit * power 10 (-grid)
  let denominator := power 2 (-interval.unit) * power 10 grid
  let below := numerator / denominator
  let above := below + 1
  let remainder := numerator % denominator
  if remainder = 0 then (if below = 0 then none else some below)
  else
    match below != 0 && interval.readsBack grid below, interval.readsBack grid above with
    | true, true =>
        if 2 * remainder < denominator then some below
        else if denominator < 2 * remainder then some above
        else match tie with
          | .toEven => some (if below % 2 = 0 then below else above)
          | .upward => some above
    | true, false => some below
    | false, true => some above
    | false, false => none

def normalize : (fuel : Nat) → Decimal → Decimal
  | 0, decimal => decimal
  | fuel + 1, decimal =>
      if decimal.digits % 10 = 0 ∧ decimal.digits ≠ 0 then
        normalize fuel ⟨decimal.digits / 10, decimal.exponent + 1⟩
      else decimal

def search (interval : Interval) (tie : Tie) (leading : Int) : List Nat → Decimal
  | [] => ⟨0, 0⟩
  | places :: more =>
      match interval.onGrid tie (leading + 1 - places) with
      | some digits => ⟨digits, leading + 1 - places⟩
      | none => search interval tie leading more

/-- The shortest decimal that reads back, without trailing zeros; zero has the single digit 0. -/
def shortest (tie : Tie) (magnitude : Magnitude) : Decimal :=
  if magnitude.significand = 0 then ⟨0, 0⟩
  else
    let interval := interval magnitude
    let leading := leadingExponent (interval.centre * power 2 interval.unit)
      (power 2 (-interval.unit))
    normalize 20 (search interval tie leading (List.range' 1 17))

end Decimal

end GraphQL
