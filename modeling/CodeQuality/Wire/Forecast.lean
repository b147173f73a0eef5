import CodeQuality.Forecast
import CodeQuality.Json.Record
import CodeQuality.Number.Binary64
import CodeQuality.Time.Rfc3339

/-!
# Debts, trends and forecasts in JSON

Every field must be given, but for the time to a target that is out of reach.
-/

namespace CodeQuality

/-- An instant, as a text in the format of RFC 3339. -/
def Instant.ofJson? (j : Json) : Option Instant := j.string?.bind read?

namespace Point

/-- A score at its instant, in JSON. -/
def toJson (p : Point Float) : Json :=
  .ofMembers [("timestamp", .ofString p.instant.text), ("score", .ofFloat p.value)]

def fieldNames : List String := ["timestamp", "score"]

/-- The score at an instant that a JSON value is. -/
def ofJson? (j : Json) : Option (Point Float) := do
  let r ← Record.read? fieldNames [] j
  return {
    instant := ← r.required "timestamp" Instant.ofJson?
    value := ← r.required "score" Json.float? }

end Point

/-- The trend of a debt, by its name. -/
def DebtTrend.ofJson? : Json → Option DebtTrend := Json.choice? named?

namespace Debt

/-- A debt in JSON. -/
def toJson (d : Debt Float) : Json :=
  .ofMembers
    [("totalDebtHours", .ofFloat d.hours),
      ("debtRatio", .ofFloat d.ratio),
      ("debtDensity", .ofFloat d.density),
      ("interestRate", .ofFloat d.interest),
      ("paybackTime", .ofFloat d.payback),
      ("debtTrend", .ofString d.trend.key)]

def fieldNames : List String :=
  ["totalDebtHours", "debtRatio", "debtDensity", "interestRate", "paybackTime", "debtTrend"]

/-- The debt that a JSON value is. -/
def ofJson? (j : Json) : Option (Debt Float) := do
  let r ← Record.read? fieldNames [] j
  return {
    hours := ← r.required "totalDebtHours" Json.float?
    ratio := ← r.required "debtRatio" Json.float?
    density := ← r.required "debtDensity" Json.float?
    interest := ← r.required "interestRate" Json.float?
    payback := ← r.required "paybackTime" Json.float?
    trend := ← r.required "debtTrend" DebtTrend.ofJson? }

end Debt

/-- The direction of a trend, by its name. -/
def Direction.ofJson? : Json → Option Direction := Json.choice? named?

namespace Projection

/-- A projected score in JSON. -/
def toJson (p : Projection Float) : Json :=
  .ofMembers
    [("period", .ofNat p.period),
      ("predictedScore", .ofFloat p.score),
      ("confidence", .ofFloat p.confidence)]

def fieldNames : List String := ["period", "predictedScore", "confidence"]

/-- The projected score that a JSON value is, its period a count of 32 bits. -/
def ofJson? (j : Json) : Option (Projection Float) := do
  let r ← Record.read? fieldNames [] j
  return {
    period := ← r.required "period" Json.count32?
    score := ← r.required "predictedScore" Json.float?
    confidence := ← r.required "confidence" Json.float? }

end Projection

namespace Trend

/-- A trend in JSON. -/
def toJson (t : Trend Float) : Json :=
  .ofMembers
    [("direction", .ofString t.direction.key),
      ("velocity", .ofFloat t.velocity),
      ("volatility", .ofFloat t.volatility),
      ("improvementRate", .ofFloat t.improvementRate),
      ("regressionRisk", .ofFloat t.regressionRisk),
      ("stabilityIndex", .ofFloat t.stability),
      ("predictedQuality", .ofFloat t.predicted),
      ("predictions", .array (t.projections.map (·.toJson)))]

def fieldNames : List String :=
  ["direction", "velocity", "volatility", "improvementRate", "regressionRisk", "stabilityIndex",
    "predictedQuality", "predictions"]

/-- The trend that a JSON value is. -/
def ofJson? (j : Json) : Option (Trend Float) := do
  let r ← Record.read? fieldNames [] j
  return {
    direction := ← r.required "direction" Direction.ofJson?
    velocity := ← r.required "velocity" Json.float?
    volatility := ← r.required "volatility" Json.float?
    improvementRate := ← r.required "improvementRate" Json.float?
    regressionRisk := ← r.required "regressionRisk" Json.float?
    stability := ← r.required "stabilityIndex" Json.float?
    predicted := ← r.required "predictedQuality" Json.float?
    projections := ← r.required "predictions" (Json.list? Projection.ofJson?) }

end Trend

namespace Forecast

/-- A forecast in JSON. A target that is out of reach has the time `null`. -/
def toJson (f : Forecast Float) : Json :=
  .ofMembers
    [("predictedScore", .ofFloat f.score),
      ("confidence", .ofFloat f.confidence),
      ("timeToTarget", (f.timeToTarget.map Json.ofFloat).getD .null),
      ("requiredEffort", .ofFloat f.effort),
      ("riskFactors", .array (f.risks.map .ofString)),
      ("recommendations", .array (f.recommendations.map .ofString))]

def fieldNames : List String :=
  ["predictedScore", "confidence", "timeToTarget", "requiredEffort", "riskFactors",
    "recommendations"]

/-- The forecast that a JSON value is. The time to the target may be `null` or left out. -/
def ofJson? (j : Json) : Option (Forecast Float) := do
  let r ← Record.read? fieldNames [] j
  return {
    score := ← r.required "predictedScore" Json.float?
    confidence := ← r.required "confidence" Json.float?
    timeToTarget := ← r.optional "timeToTarget" Json.float?
    effort := ← r.required "requiredEffort" Json.float?
    risks := ← r.required "riskFactors" (Json.list? Json.string?)
    recommendations := ← r.required "recommendations" (Json.list? Json.string?) }

end Forecast

end CodeQuality
