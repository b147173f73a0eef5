import CodeQuality.Number.Statistics
import CodeQuality.Timeline

/-!
# Trends

Where a series of scores is heading: its slope, how much it varies, what that means for the coming
weeks. Only the last scores within a window count, and fewer than three have no trend.
-/

namespace CodeQuality

open Scalar

/-- Where a series of scores is heading. -/
inductive Direction where
  | improving
  | declining
  | stable
deriving DecidableEq

namespace Direction

/-- All directions. -/
def all : List Direction := [improving, declining, stable]

/-- The name in data. -/
def key : Direction → String
  | improving => "improving"
  | declining => "declining"
  | stable => "stable"

/-- The direction with a name in data. -/
def named? (s : String) : Option Direction := all.find? (·.key == s)

theorem named?_key (d : Direction) : named? d.key = some d := by cases d <;> decide

end Direction

/-- The score that is expected in some weeks. -/
structure Projection (α : Type) where
  /-- How many weeks from now. -/
  period : Nat
  score : α
  confidence : α

/-- Where a series of scores is heading. -/
structure Trend (α : Type) where
  direction : Direction
  /-- Change of the score from one run to the next. -/
  velocity : α
  volatility : α
  /-- The percentage of steps that go up. -/
  improvementRate : α
  regressionRisk : α
  stability : α
  /-- The score of the next run, or of the last one when there is no trend. -/
  predicted : α
  projections : List (Projection α)

variable {α : Type} [Scalar α]

/-- The direction of a velocity. -/
def Direction.ofVelocity (velocity : α) : Direction :=
  if 0.5 < velocity then improving else if velocity < -0.5 then declining else stable

/-- The risk that the score falls, between `0` and `100`. -/
def regressionRisk (velocity volatility : α) : α :=
  let decline := if velocity < 0.0 then magnitude velocity * 20.0 else 0.0
  smaller (smaller (volatility * 10.0) 100.0 + decline) 100.0

/-- How steady the score is, at most `100` and never negative. -/
def stabilityIndex (volatility : α) : α := larger (100.0 - volatility * 20.0) 0.0

/-- How much a projection can be relied on. -/
def projectionConfidence (volatility : α) : α := larger (100.0 - volatility * 10.0) 0.0

/-- The number of steps of a series that go up. -/
def rises : List α → Nat
  | x :: y :: rest => (if x < y then 1 else 0) + rises (y :: rest)
  | _ => 0

theorem rises_le : (scores : List α) → rises scores ≤ scores.length - 1
  | [] => Nat.le_refl _
  | [_] => Nat.le_refl _
  | x :: y :: rest => by
    have ih := rises_le (y :: rest)
    rw [rises]
    simp only [List.length_cons] at ih ⊢
    split <;> omega

/-- The percentage of steps that go up; `0` without a step. -/
def improvementRate (scores : List α) : α :=
  if scores.length < 2 then 0.0
  else ofNat (rises scores) / ofNat (scores.length - 1) * 100.0

namespace Trend

/-- The trend of too few scores. -/
def insufficient (last : Option α) : Trend α :=
  { direction := .stable
    velocity := 0.0
    volatility := 0.0
    improvementRate := 0.0
    regressionRisk := 0.0
    stability := 100.0
    predicted := (last.map clampScore).getD 0.0
    projections := [] }

/-- The least number of scores that have a trend. -/
def leastScores : Nat := 3

/-- The scores that count: the last ones within a window of at least three. -/
def recent (window : Nat) (scores : List α) : List α :=
  latest (max window leastScores) scores

/-- The weeks that are projected. -/
def periods : List Nat := [1, 2, 3, 4, 5]

/-- The trend of recent scores. -/
def ofRecent (scores : List α) : Trend α :=
  let velocity := slope scores
  let volatility := deviation scores
  let last := scores.getLast?.getD 0.0
  { direction := .ofVelocity velocity
    velocity
    volatility
    improvementRate := CodeQuality.improvementRate scores
    regressionRisk := CodeQuality.regressionRisk velocity volatility
    stability := stabilityIndex volatility
    predicted := clampScore (last + velocity)
    projections := periods.map fun period =>
      { period
        score := clampScore (last + velocity * ofNat period)
        confidence := projectionConfidence volatility } }

/-- The trend of a series of scores, the oldest first. -/
def ofScores (window : Nat) (scores : List α) : Trend α :=
  if scores.length < leastScores then insufficient scores.getLast?
  else ofRecent (recent window scores)

end Trend

end CodeQuality
