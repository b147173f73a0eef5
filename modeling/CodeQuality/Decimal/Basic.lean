/-!
# Decimals of whole numbers

`roundTiesEven` is the nearest whole number of a quotient; `fixedText` places the decimal point.
Both work on exact whole numbers, so that a text shows the correctly rounded value. In the other
direction `nearest` rounds `count · 10 ^ exponent` once, from its exact value.
-/

namespace CodeQuality.Decimal

/-- `numerator / denominator` to the nearest whole number; a half goes to the even neighbour. -/
def roundTiesEven (numerator denominator : Nat) : Nat :=
  let whole := numerator / denominator
  let rest := numerator % denominator
  if 2 * rest < denominator then whole
  else if denominator < 2 * rest then whole + 1
  else whole + whole % 2

/-- The decimal digits of a count. -/
def digits (n : Nat) : List Char := Nat.toDigits 10 n

/-- `n / 10 ^ places` in full, with exactly `places` digits behind the point. -/
def fixedText (negative : Bool) (n places : Nat) : String :=
  let ds := digits n
  let padded := List.replicate (places + 1 - ds.length) '0' ++ ds
  let whole := padded.take (padded.length - places)
  let rest := padded.drop (padded.length - places)
  String.ofList
    ((if negative then ['-'] else []) ++ whole ++ (if places = 0 then [] else '.' :: rest))

/-- The floating-point number nearest to `count · 10 ^ exponent`. Beyond `10 ^ 400` it is infinite
and below `10 ^ -400` it is zero, without computing the power. -/
def nearest (count : Nat) (exponent : Int) : Float :=
  let size := exponent + (digits count).length
  if count = 0 then 0.0
  else if 400 < size then 1.0 / 0.0
  else if size < -400 then 0.0
  else if 0 ≤ exponent then Float.ofScientific count false exponent.toNat
  else Float.ofScientific count true (-exponent).toNat

end CodeQuality.Decimal
