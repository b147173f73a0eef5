import CodeQuality.Number.Scalar

/-!
# Statistics of score series

The mean, the least-squares slope of a series against its positions, and the population deviation;
the band of scores and the two decimals that stored numbers keep.
-/

namespace CodeQuality

namespace Scalar

variable {α : Type} [Scalar α]

/-- Scores lie between `0` and `100`. -/
def clampScore (x : α) : α := clamp 0.0 100.0 x

/-- The number at two decimals, the precision that snapshots are stored at. -/
def hundredths (x : α) : α := round (x * 100.0) / 100.0

/-- The arithmetic mean; `0` of nothing. -/
def mean (xs : List α) : α :=
  if xs.isEmpty then 0.0 else total xs / ofNat xs.length

/-- The sums that a regression line is computed from. -/
structure LineSums (α : Type) where
  /-- Sum of the positions. -/
  x : α
  /-- Sum of the values. -/
  y : α
  /-- Sum of the products of position and value. -/
  xy : α
  /-- Sum of the squared positions. -/
  xx : α

/-- The sums of a series against the positions `0, 1, 2, …`. -/
def LineSums.of (ys : List α) : LineSums α :=
  ys.zipIdx.foldl
    (fun s p =>
      let x : α := ofNat p.2
      ⟨s.x + x, s.y + p.1, s.xy + x * p.1, s.xx + x * x⟩)
    ⟨0.0, 0.0, 0.0, 0.0⟩

theorem LineSums.of_concat (ys : List α) (y : α) :
    LineSums.of (ys ++ [y]) =
      ⟨(LineSums.of ys).x + ofNat ys.length, (LineSums.of ys).y + y,
        (LineSums.of ys).xy + ofNat ys.length * y,
        (LineSums.of ys).xx + ofNat ys.length * ofNat ys.length⟩ := by
  rw [LineSums.of, List.zipIdx_append, List.foldl_append, Nat.zero_add]
  rfl

/-- The least-squares slope of a series against its positions; `0` for fewer than two values. -/
def slope (ys : List α) : α :=
  if ys.length < 2 then 0.0
  else
    let n : α := ofNat ys.length
    let s := LineSums.of ys
    let denominator := n * s.xx - s.x * s.x
    if denominator == 0.0 then 0.0 else (n * s.xy - s.x * s.y) / denominator

/-- The standard deviation of a whole population; `0` of nothing. -/
def deviation (xs : List α) : α :=
  if xs.isEmpty then 0.0
  else
    let average := mean xs
    sqrt (total (xs.map fun x => (x - average) * (x - average)) / ofNat xs.length)

end Scalar

end CodeQuality
