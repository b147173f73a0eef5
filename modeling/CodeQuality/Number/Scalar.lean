/-!
# The numbers that scores are made of

Every formula of the library is written once over `Scalar`, the arithmetic it needs. The program
runs at binary floating point (`CodeQuality.Number.Binary64`); an ordered field with a square root
is as good an instance, so that a law of a formula can be stated for exact arithmetic and for
floating point of the very same definition.

* `Scalar.larger` and `Scalar.smaller` prefer a number to a value that is none;
* `Scalar.clamp` leaves such a value alone;
* `Scalar.total` starts at negative zero, the neutral element of floating-point addition.
-/

namespace CodeQuality

/-- The values of floating-point arithmetic that are no numbers. -/
inductive NonFinite where
  | nan
  | infinity
  | negInfinity
deriving DecidableEq

namespace NonFinite

/-- The spelling in messages. -/
def text : NonFinite → String
  | nan => "NaN"
  | infinity => "inf"
  | negInfinity => "-inf"

end NonFinite

/-- The arithmetic of scores. No law is asked of an instance. -/
class Scalar (α : Type) extends Add α, Sub α, Mul α, Div α, Neg α, LT α, LE α, BEq α,
    OfScientific α where
  /-- Comparison is computed. -/
  decLt : ∀ x y : α, Decidable (x < y)
  /-- Comparison is computed. -/
  decLe : ∀ x y : α, Decidable (x ≤ y)
  /-- A count as a number. -/
  ofNat : Nat → α
  /-- Square root. -/
  sqrt : α → α
  /-- Natural logarithm. -/
  ln : α → α
  /-- Sine of an angle in radians. -/
  sin : α → α
  /-- The nearest whole number; a half goes away from zero. -/
  round : α → α
  /-- The whole part as a count: nothing below zero, at most `2 ^ 64 - 1`. -/
  count : α → Nat
  /-- Which of the three values that are no numbers this is, if it is one. -/
  nonFinite? : α → Option NonFinite
  /-- Decimal text with a fixed number of places; a half goes to the even neighbour. -/
  fixed : Nat → α → String

namespace Scalar

variable {α : Type} [Scalar α]

instance (x y : α) : Decidable (x < y) := decLt x y

instance (x y : α) : Decidable (x ≤ y) := decLe x y

/-- An ordinary number, neither infinite nor undefined. -/
def isFinite (x : α) : Bool := (nonFinite? x).isNone

/-- The larger of two numbers; a value that is not even comparable with itself gives way. -/
def larger (x y : α) : α := if x < y then y else if x ≤ x then x else y

/-- The smaller of two numbers; a value that is not even comparable with itself gives way. -/
def smaller (x y : α) : α := if y < x then y else if x ≤ x then x else y

/-- `x` moved into the band from `lo` to `hi`; what lies on no side of the band stays. -/
def clamp (lo hi x : α) : α := if x < lo then lo else if hi < x then hi else x

/-- The distance from zero. -/
def magnitude (x : α) : α := if x < 0.0 then -x else x

/-- The sum from left to right, starting at negative zero. -/
def total (xs : List α) : α := xs.foldl (· + ·) (-0.0)

end Scalar

end CodeQuality
