/-!
# The shortest decimal of a binary number

A binary number `m · 2 ^ q` is one of the numbers that a format can hold; every real close enough
to it is read as it. `shortest` finds the decimal with the fewest digits among those reals, and of
these the one nearest to the number (an exact tie goes to the even digit). It tries one decimal
grid after the other, from coarse to fine: if any point of a grid is close enough, one of the two
neighbours of the number on that grid is.
-/

namespace CodeQuality.Decimal

/-- The reals that are read as one binary number, all over the common `denominator`. -/
structure Cell where
  /-- Lower end. -/
  low : Nat
  /-- The number itself. -/
  mid : Nat
  /-- Upper end. -/
  high : Nat
  /-- What the three are counted in. -/
  denominator : Nat
  /-- Whether the two ends belong to the cell. -/
  closed : Bool

namespace Cell

/-- The cell of `m · 2 ^ q` in a format of `precision` bits whose least exponent is `least`. The
ends are half way to the neighbours; below a power of two the neighbour is twice as near. They
belong to the cell of an even significand. -/
def ofBinary (precision : Nat) (least : Int) (m : Nat) (q : Int) : Cell :=
  let power := Nat.pow 2 (q - 2).toNat
  let below := if m = Nat.pow 2 (precision - 1) ∧ least < q then 1 else 2
  { low := (4 * m - below) * power
    mid := 4 * m * power
    high := (4 * m + 2) * power
    denominator := Nat.pow 2 (2 - q).toNat
    closed := m % 2 == 0 }

/-- Whether `c · unit`, counted in `1 / scale` of the cell's denominator, lies in the cell. -/
def holds (cell : Cell) (scale point : Nat) : Bool :=
  if cell.closed then cell.low * scale ≤ point && point ≤ cell.high * scale
  else cell.low * scale < point && point < cell.high * scale

/-- The point of the grid `10 ^ i` that stands for the cell, if one lies in it: the nearer of the
two neighbours of the middle, the even one when both are equally near. -/
def onGrid? (cell : Cell) (i : Int) : Option Nat :=
  let scale := Nat.pow 10 (-i).toNat
  let unit := Nat.pow 10 i.toNat * cell.denominator
  let mid := cell.mid * scale
  let down := mid / unit
  match cell.holds scale (down * unit), cell.holds scale ((down + 1) * unit) with
  | false, false => none
  | true, false => some down
  | false, true => some (down + 1)
  | true, true =>
    let toDown := mid - down * unit
    let toUp := (down + 1) * unit - mid
    if toDown < toUp then some down
    else if toUp < toDown then some (down + 1)
    else some (down + down % 2)

/-- The first of `tries` grids, from `10 ^ i` downwards, that has a point in the cell. -/
def search (cell : Cell) : Nat → Int → Option (Nat × Int)
  | 0, _ => none
  | tries + 1, i =>
    match cell.onGrid? i with
    | some c => some (c, i)
    | none => search cell tries (i - 1)

end Cell

/-- All digits of `m · 2 ^ q`. -/
def exact (m : Nat) (q : Int) : Nat × Int :=
  if 0 ≤ q then (m * Nat.pow 2 q.toNat, 0) else (m * Nat.pow 5 (-q).toNat, q)

/-- A grid that is certainly coarser than `m · 2 ^ q`: `2 ^ 10` is just above `10 ^ 3`. -/
def coarse (m : Nat) (q : Int) : Int := ((m.log2 : Int) + 1 + q) * 309 / 1024 + 2

/-- The shortest decimal `c · 10 ^ i` that is read as `m · 2 ^ q` in binary64. The twenty-two grids
from `coarse` on reach past the seventeen digits that always suffice; were they not enough, all
digits would be given. -/
def shortest (m : Nat) (q : Int) : Nat × Int :=
  ((Cell.ofBinary 53 (-1074) m q).search 22 (coarse m q)).getD (exact m q)

end CodeQuality.Decimal
