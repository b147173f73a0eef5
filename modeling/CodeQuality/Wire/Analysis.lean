import CodeQuality.Analysis.Basic
import CodeQuality.Json.Record
import CodeQuality.Number.Binary64

/-!
# Analyses in JSON

Members without a value are left out. Metrics are an object of numbers by name; of a name that is
given more than once the last number counts.
-/

namespace CodeQuality

/-- The severity of an issue, by its name. -/
def Severity.ofJson? : Json → Option Severity := Json.choice? named?

/-- A category, by its name. -/
def Category.ofJson? : Json → Option Category := Json.choice? named?

namespace Issue

/-- An issue in JSON. A place or a rule that is not known is left out. -/
def toJson (issue : Issue) : Json :=
  .ofMembers
    ([("severity", .ofString issue.severity.key), ("file", .ofString issue.file)] ++
      Json.member? "line" (issue.line.map .ofNat) ++
      Json.member? "column" (issue.column.map .ofNat) ++
      [("message", .ofString issue.message)] ++
      Json.member? "rule" (issue.rule.map .ofString) ++
      [("fixable", .bool issue.fixable)])

def fieldNames : List String :=
  ["severity", "file", "line", "column", "message", "rule", "fixable"]

/-- The issue that a JSON value is; it cannot be fixed automatically unless the value says so. -/
def ofJson? (j : Json) : Option Issue := do
  let r ← Record.read? fieldNames [] j
  return {
    severity := ← r.required "severity" Severity.ofJson?
    file := ← r.required "file" Json.string?
    line := ← r.optional "line" Json.count64?
    column := ← r.optional "column" Json.count64?
    message := ← r.required "message" Json.string?
    rule := ← r.optional "rule" Json.string?
    fixable := ← r.withDefault "fixable" false Json.bool? }

end Issue

namespace Metrics

/-- Metrics in JSON, in the order of their names. -/
def toJson (metrics : Metrics Float) : Json :=
  .ofMembers (metrics.entries.map fun entry => (entry.1, .ofFloat entry.2))

/-- The metrics that a JSON value is, its numbers read by `number?`. -/
def ofJson? (number? : Json → Option Float) : Json → Option (Metrics Float)
  | .object members => do
    let entries ← members.mapM fun m => do
      let key ← m.1
      let value ← number? m.2
      return (key, value)
    return ofList entries
  | _ => none

end Metrics

namespace Analysis

/-- An analysis in JSON. A category or a score that is not known is left out. -/
def toJson (a : Analysis Float) : Json :=
  .ofMembers
    (Json.member? "category" (a.category.map fun c => .ofString c.key) ++
      Json.member? "score" (a.score.map .ofFloat) ++
      [("issues", .array (a.issues.map (·.toJson))),
        ("suggestions", .array (a.suggestions.map .ofString)),
        ("metrics", a.metrics.toJson)])

def fieldNames : List String := ["category", "score", "issues", "suggestions", "metrics"]

/-- The analysis that a JSON value is, its score and metrics read by `number?`. -/
def ofJsonWith? (number? : Json → Option Float) (j : Json) : Option (Analysis Float) := do
  let r ← Record.read? fieldNames [] j
  return {
    category := ← r.optional "category" Category.ofJson?
    score := ← r.optional "score" number?
    issues := ← r.required "issues" (Json.list? Issue.ofJson?)
    suggestions := ← r.withDefault "suggestions" [] (Json.list? Json.string?)
    metrics := ← r.required "metrics" (Metrics.ofJson? number?) }

/-- The analysis that a JSON value is. -/
def ofJson? : Json → Option (Analysis Float) := ofJsonWith? Json.float?

end Analysis

end CodeQuality
