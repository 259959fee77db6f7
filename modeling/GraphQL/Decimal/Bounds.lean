/-!
Whole numbers that fit a number of bits, and powers of whole numbers.
-/

namespace GraphQL

def fitsInt32 (value : Int) : Bool := -0x80000000 ≤ value && value < 0x80000000

def fitsInt64 (value : Int) : Bool :=
  -0x8000000000000000 ≤ value && value < 0x8000000000000000

def countLimit : Nat := 0x10000000000000000

def fitsCount (value : Nat) : Bool := value < countLimit

def countOf? (value : Int) : Option Nat :=
  if 0 ≤ value && fitsCount value.toNat then some value.toNat else none

/-- A positive power of a base, or one when the exponent is negative. -/
def power (base : Nat) (exponent : Int) : Nat := Nat.pow base exponent.toNat

example : power 2 64 = countLimit := by decide

example : fitsInt64 (-0x8000000000000000) = true ∧ fitsInt64 0x8000000000000000 = false := by decide

end GraphQL
