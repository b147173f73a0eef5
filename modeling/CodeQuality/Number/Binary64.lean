import CodeQuality.Number.Scalar
import CodeQuality.Decimal.Basic

/-!
# Binary floating point as the numbers of scores

`Float` is the instance of `Scalar` that the program runs at. Rounding and counting go through the
arithmetic of `Float` itself; texts go through the exact value `± m · 2 ^ q` of the number.
-/

namespace CodeQuality.Binary64

open Float.Model

/-- A floating-point value taken apart: a finite one is `± m · 2 ^ q`. -/
inductive Parts where
  | finite (negative : Bool) (m : Nat) (q : Int)
  | special (value : NonFinite)

/-- The parts of a floating-point value. -/
def parts (x : Float) : Parts :=
  match x.toModel.unpack with
  | .finite .negative m q _ => .finite true m q
  | .finite .positive m q _ => .finite false m q
  | .zero .negative => .finite true 0 0
  | .zero .positive => .finite false 0 0
  | .infinity .negative => .special .negInfinity
  | .infinity .positive => .special .infinity
  | .notANumber => .special .nan

/-- Which value without a number this is, if it is one. -/
def nonFinite? (x : Float) : Option NonFinite :=
  match parts x with
  | .finite _ _ _ => none
  | .special value => some value

/-- The nearest whole number; a half goes away from zero, and zero keeps the sign. From `2 ^ 52` on
every number is whole. -/
def round (x : Float) : Float :=
  let size := x.abs
  if size < 4503599627370496.0 then
    let whole := size.toUInt64.toFloat
    let near := if size - whole < 0.5 then whole else whole + 1.0
    if x < 0.0 then -near else if 0.0 < x then near else x
  else x

/-- Decimal text with `places` digits behind the point, rounded correctly from the exact value. -/
def fixed (places : Nat) (x : Float) : String :=
  match parts x with
  | .special value => value.text
  | .finite negative m q =>
    Decimal.fixedText negative
      (Decimal.roundTiesEven (m * Nat.pow 2 q.toNat * Nat.pow 10 places) (Nat.pow 2 (-q).toNat)) places

instance : Scalar Float where
  decLt := inferInstance
  decLe := inferInstance
  ofNat := Float.ofNat
  sqrt := Float.sqrt
  ln := Float.log
  sin := Float.sin
  round := round
  count x := x.toUInt64.toNat
  nonFinite? := nonFinite?
  fixed := fixed

end CodeQuality.Binary64
