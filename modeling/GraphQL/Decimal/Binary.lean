import GraphQL.Decimal.Bounds

/-!
The exact value of a double: a sign and a magnitude `significand * 2 ^ exponent` in whole numbers.
-/

namespace GraphQL

/-- The magnitude `significand * 2 ^ exponent`. -/
structure Magnitude where
  significand : Nat
  exponent : Int
deriving DecidableEq, Repr

inductive Double where
  | notANumber
  | infinite (negative : Bool)
  | finite (negative : Bool) (magnitude : Magnitude)
deriving DecidableEq, Repr

namespace Double

/-- The least significand of a double that is not very small: it has fifty-three bits. -/
def leastSignificand : Nat := 0x10000000000000

def ofBits (bits : Nat) : Double :=
  let negative := bits / 0x8000000000000000 % 2 == 1
  let exponent : Nat := bits / leastSignificand % 0x800
  let fraction := bits % leastSignificand
  if exponent = 2047 then
    if fraction = 0 then .infinite negative else .notANumber
  else if exponent = 0 then .finite negative ⟨fraction, -1074⟩
  else .finite negative ⟨leastSignificand + fraction, (exponent : Int) - 1075⟩

def ofFloat (value : Float) : Double := ofBits value.toBits.toNat

def isFinite : Double → Bool
  | .finite _ _ => true
  | _ => false

def toInt? : Double → Option Int
  | .finite negative ⟨significand, exponent⟩ =>
      let whole : Option Nat :=
        if 0 ≤ exponent then some (significand * power 2 exponent)
        else if significand % power 2 (-exponent) = 0 then
          some (significand / power 2 (-exponent))
        else none
      whole.map fun magnitude => if negative then -(magnitude : Int) else (magnitude : Int)
  | _ => none

example : ofBits 0x3FF0000000000000 = .finite false ⟨leastSignificand, -52⟩ := by decide

example : (ofBits 0xC000000000000000).toInt? = some (-2) := by decide

example : (ofBits 0x3FE0000000000000).toInt? = none := by decide

end Double

end GraphQL
