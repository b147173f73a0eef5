import CodeQuality.Debt
import CodeQuality.Trend

/-!
# Forecasts

What a trend and a debt mean for the coming ten runs: the score to expect, the time to a target, the
risks and what to do about them.
-/

namespace CodeQuality

open Scalar

/-- What to expect. -/
structure Forecast (α : Type) where
  score : α
  confidence : α
  /-- The number of runs until the target is reached, if the score is improving. It is negative
  beyond the target. -/
  timeToTarget : Option α
  /-- Hours of repair. -/
  effort : α
  risks : List String
  recommendations : List String

/-- What endangers the quality. -/
inductive Risk where
  | regression
  | growingDebt
  | unstable
  | heavyDebt
  | noProgress
deriving DecidableEq

/-- The name of a risk. -/
def Risk.text : Risk → String
  | regression => "High regression risk"
  | growingDebt => "Technical debt increasing"
  | unstable => "Unstable metrics"
  | heavyDebt => "High debt burden"
  | noProgress => "Low improvement rate"

/-- What to do for the quality. -/
inductive Advice (α : Type) where
  | resolveErrors
  | addressWarnings
  | payDebt (ratio : α)
  | reviewChanges
  | stabilize

variable {α : Type} [Scalar α]

/-- The words of an advice. -/
def Advice.text : Advice α → String
  | resolveErrors => "Resolve critical errors before adding new functionality"
  | addressWarnings => "Address remaining warnings and raise test coverage to lift the score"
  | payDebt ratio =>
    s!"Reserve time for debt paydown ({fixed 1 ratio} hours per thousand lines)"
  | reviewChanges => "Review recent changes behind the declining quality trend"
  | stabilize => "Stabilize quality with consistent review and CI quality gates"

/-- The risks of a trend and a debt. -/
def Risk.among (trend : Trend α) (debt : Debt α) : List Risk :=
  [(decide (70.0 < trend.regressionRisk), regression),
    (debt.trend == .increasing, growingDebt),
    (decide (trend.stability < 50.0), unstable),
    (decide (100.0 < debt.hours), heavyDebt),
    (decide (trend.improvementRate < 30.0), noProgress)].filterMap
      fun (present, risk) => if present then some risk else none

/-- The advice for a score, a trend and a debt. -/
def Advice.given (score : α) (trend : Trend α) (debt : Debt α) : List (Advice α) :=
  (if score < 60.0 then [resolveErrors] else if score < 80.0 then [addressWarnings] else []) ++
    (if 5.0 < debt.ratio then [payDebt debt.ratio] else []) ++
    (if trend.direction = .declining then [reviewChanges] else []) ++
    (if 5.0 < trend.volatility then [stabilize] else [])

/-- The forecast for a score on its way to a target. The trend counts for ten runs, and the debt for
twice its ratio, up to `20`. -/
def Forecast.of (target score : α) (trend : Trend α) (debt : Debt α) : Forecast α :=
  { score := clampScore (score + trend.velocity * 10.0 - smaller (debt.ratio * 2.0) 20.0)
    confidence := smaller (trend.stability * 0.8 + 20.0) 100.0
    timeToTarget :=
      if 0.0 < trend.velocity then some ((target - score) / trend.velocity) else none
    effort := debt.hours * 0.7
    risks := (Risk.among trend debt).map (·.text)
    recommendations := (Advice.given score trend debt).map (·.text) }

theorem Forecast.isSome_timeToTarget (target score : α) (trend : Trend α) (debt : Debt α) :
    (Forecast.of target score trend debt).timeToTarget.isSome ↔ 0.0 < trend.velocity := by
  simp only [Forecast.of]
  split
  next h => simp [h]
  next h => simp [h]

end CodeQuality
