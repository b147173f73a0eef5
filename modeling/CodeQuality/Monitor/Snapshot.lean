import CodeQuality.Complexity.Threshold
import CodeQuality.Forecast
import CodeQuality.Grade
import CodeQuality.Score.Breakdown

/-!
# Snapshots

What is kept of a run: its score, debt, maintainability, trend, health and forecast, all at two
decimals. Grades and directions are told before the rounding.
-/

namespace CodeQuality

open Scalar

/-- The maintainability of the code of a run. -/
structure Profile (α : Type) where
  index : α
  averageCyclomatic : α
  averageCognitive : α
  lines : Nat
  /-- The number of measured files. -/
  files : Nat
  rating : Grade

/-- The issues of a run. -/
structure Health where
  issues : Nat
  errors : Nat
  warnings : Nat
  infos : Nat
  fixable : Nat
  unclassified : Nat
  grade : Grade
deriving DecidableEq

/-- What is kept of a run. -/
structure Snapshot (α : Type) where
  score : α
  debt : Debt α
  profile : Profile α
  trend : Trend α
  health : Health
  forecast : Forecast α
  instant : Instant
  /-- The version of the program that took it. -/
  version : String

instance (α : Type) : Timed (Snapshot α) := ⟨Snapshot.instant⟩

variable {α : Type} [Scalar α]

/-! ## Taking a snapshot -/

/-- The number of lines: of the measured files, or else the largest that an analysis reports. -/
def linesOfCode (as : List (Analysis α)) (files : List (FileMeasurement α)) : Nat :=
  if files.isEmpty then
    count ((as.filterMap (·.metric? Metric.linesOfCode)).foldl larger 0.0)
  else FileMeasurement.totalLines files

/-- The mean of a metric over the complexity analyses that report it; `0` if none does. -/
def complexityMean (as : List (Analysis α)) (key : String) : α :=
  let values := (inCategory .complexity as).filterMap (·.metric? key)
  if values.isEmpty then 0.0 else mean values

/-- The maintainability of measured files. -/
def Profile.ofFiles (files : List (FileMeasurement α)) : Profile α :=
  let callables := files.flatMap (·.callables)
  let index := mean (files.map (·.maintainability))
  { index
    averageCyclomatic := meanCyclomatic callables
    averageCognitive := meanCognitive callables
    lines := FileMeasurement.totalLines files
    files := files.length
    rating := .ofMaintainability index }

/-- The maintainability that analyses report. -/
def Profile.ofAnalyses (as : List (Analysis α)) : Profile α :=
  let index := clamp 0.0 100.0 (complexityMean as Metric.maintainabilityIndex)
  { index
    averageCyclomatic := complexityMean as Metric.averageComplexity
    averageCognitive := complexityMean as Metric.cognitiveComplexity
    lines := linesOfCode as []
    files := 0
    rating := .ofMaintainability index }

/-- The maintainability of a run: of the measured files, or else as analyses report it. -/
def Profile.of (as : List (Analysis α)) (files : List (FileMeasurement α)) : Profile α :=
  if files.isEmpty then ofAnalyses as else ofFiles files

/-- The issues of analyses with a score. -/
def Health.of (as : List (Analysis α)) (breakdown : Breakdown α) : Health :=
  { issues := totalCount (as.map (·.issues.length))
    errors := totalCount (as.map (·.errors))
    warnings := totalCount (as.map (·.warnings))
    infos := totalCount (as.map (·.infos))
    fixable := totalCount (as.map (·.fixables))
    unclassified := breakdown.unclassified
    grade := .ofScore breakdown.overall }

/-! ## Two decimals -/

/-- The debt at two decimals. -/
def Debt.rounded (d : Debt α) : Debt α :=
  { d with
    hours := hundredths d.hours
    ratio := hundredths d.ratio
    density := hundredths d.density
    interest := hundredths d.interest
    payback := hundredths d.payback }

/-- The maintainability at two decimals. -/
def Profile.rounded (p : Profile α) : Profile α :=
  { p with
    index := hundredths p.index
    averageCyclomatic := hundredths p.averageCyclomatic
    averageCognitive := hundredths p.averageCognitive }

/-- The projection at two decimals. -/
def Projection.rounded (p : Projection α) : Projection α :=
  { p with
    score := hundredths p.score
    confidence := hundredths p.confidence }

/-- The trend at two decimals. -/
def Trend.rounded (t : Trend α) : Trend α :=
  { t with
    velocity := hundredths t.velocity
    volatility := hundredths t.volatility
    improvementRate := hundredths t.improvementRate
    regressionRisk := hundredths t.regressionRisk
    stability := hundredths t.stability
    predicted := hundredths t.predicted
    projections := t.projections.map (·.rounded) }

/-- The forecast at two decimals. -/
def Forecast.rounded (f : Forecast α) : Forecast α :=
  { f with
    score := hundredths f.score
    confidence := hundredths f.confidence
    timeToTarget := f.timeToTarget.map hundredths
    effort := hundredths f.effort }

namespace Snapshot

/-- The snapshot at two decimals. -/
def rounded (s : Snapshot α) : Snapshot α :=
  { s with
    score := hundredths s.score
    debt := s.debt.rounded
    profile := s.profile.rounded
    trend := s.trend.rounded
    forecast := s.forecast.rounded }

/-- The version that new snapshots bear. -/
def currentVersion : String := "0.3.0"

/-- The score of a snapshot at its instant. -/
def scorePoint (s : Snapshot α) : Point α := ⟨s.instant, s.score⟩

end Snapshot

end CodeQuality
