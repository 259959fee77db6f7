import GraphQL.Decimal.Shortest

/-!
How doubles are written: in JSON text, and in the literals of a document.
-/

namespace GraphQL

/-- The decisions of a way of writing doubles. Positional writing is used when the exponent of the
leading digit lies between `least` and `most`; a missing bound is no bound. -/
structure FloatLayout where
  tie : Tie
  least : Option Int
  most : Option Int
  /-- Whether a whole number is written with the fraction `.0`. -/
  fraction : Bool
  infinity : String
  negativeInfinity : String
  undefined : String

namespace FloatLayout

/-- JSON writes exponents from -5 to 15 positionally, always with a fraction, and has no form for
infinite or undefined numbers but `null`. -/
def json : FloatLayout := ⟨.toEven, some (-5), some 15, true, "null", "null", "null"⟩

def literal : FloatLayout := ⟨.upward, none, none, false, "inf", "-inf", "NaN"⟩

def positional (layout : FloatLayout) (decimal : Decimal) : List Char :=
  let digits := Nat.toDigits 10 decimal.digits
  let tail := if layout.fraction then ['.', '0'] else []
  if 0 ≤ decimal.exponent then digits ++ List.replicate decimal.exponent.toNat '0' ++ tail
  else
    let places := (-decimal.exponent).toNat
    if places < digits.length then
      digits.take (digits.length - places) ++ '.' :: digits.drop (digits.length - places)
    else '0' :: '.' :: (List.replicate (places - digits.length) '0' ++ digits)

def scientific (decimal : Decimal) : List Char :=
  let digits := Nat.toDigits 10 decimal.digits
  let exponent := decimal.exponent + digits.length - 1
  let mantissa := match digits with
    | [] => []
    | [digit] => [digit]
    | digit :: more => digit :: '.' :: more
  let sign := if exponent < 0 then '-' else '+'
  mantissa ++ 'e' :: sign :: Nat.toDigits 10 exponent.natAbs

def within (layout : FloatLayout) (exponent : Int) : Bool :=
  layout.least.all (· ≤ exponent) && layout.most.all (exponent ≤ ·)

def write (layout : FloatLayout) : Double → String
  | .notANumber => layout.undefined
  | .infinite negative => if negative then layout.negativeInfinity else layout.infinity
  | .finite negative magnitude =>
      let decimal := Decimal.shortest layout.tie magnitude
      let leading := decimal.exponent + (Decimal.digitCount decimal.digits : Int) - 1
      let body :=
        if layout.within leading then layout.positional decimal else scientific decimal
      String.ofList (if negative then '-' :: body else body)

end FloatLayout

end GraphQL
