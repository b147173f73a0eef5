import CodeQuality.Json.Printer
import CodeQuality.Json.Reader
import CodeQuality.Monitor.Basic
import CodeQuality.Wire.Analysis
import CodeQuality.Wire.Breakdown
import CodeQuality.Wire.Forecast

/-!
# Snapshots and reports in JSON

What a run tells, and the history that outlives a monitor: an array of snapshots, the oldest first.
-/

namespace CodeQuality

/-- A grade, by its letter. -/
def Grade.ofJson? : Json → Option Grade := Json.choice? named?

/-- The priority of a suggestion, by its name. -/
def Priority.ofJson? : Json → Option Priority := Json.choice? named?

namespace Suggestion

/-- A suggestion in JSON. A category that is not known is left out. -/
def toJson (s : Suggestion) : Json :=
  .ofMembers
    ([("id", .ofString s.id), ("priority", .ofString s.priority.key)] ++
      Json.member? "category" (s.category.map fun c => .ofString c.key) ++
      [("title", .ofString s.title), ("description", .ofString s.description)])

def fieldNames : List String := ["id", "priority", "category", "title", "description"]

/-- The suggestion that a JSON value is. -/
def ofJson? (j : Json) : Option Suggestion := do
  let r ← Record.read? fieldNames [] j
  return {
    id := ← r.required "id" Json.string?
    priority := ← r.required "priority" Priority.ofJson?
    category := ← r.optional "category" Category.ofJson?
    title := ← r.required "title" Json.string?
    description := ← r.required "description" Json.string? }

end Suggestion

namespace Profile

/-- A maintainability in JSON. -/
def toJson (p : Profile Float) : Json :=
  .ofMembers
    [("index", .ofFloat p.index),
      ("averageCyclomatic", .ofFloat p.averageCyclomatic),
      ("averageCognitive", .ofFloat p.averageCognitive),
      ("linesOfCode", .ofNat p.lines),
      ("filesAnalyzed", .ofNat p.files),
      ("rating", .ofString p.rating.letter)]

def fieldNames : List String :=
  ["index", "averageCyclomatic", "averageCognitive", "linesOfCode", "filesAnalyzed", "rating"]

/-- The maintainability that a JSON value is. -/
def ofJson? (j : Json) : Option (Profile Float) := do
  let r ← Record.read? fieldNames [] j
  return {
    index := ← r.required "index" Json.float?
    averageCyclomatic := ← r.required "averageCyclomatic" Json.float?
    averageCognitive := ← r.required "averageCognitive" Json.float?
    lines := ← r.required "linesOfCode" Json.count64?
    files := ← r.required "filesAnalyzed" Json.count64?
    rating := ← r.required "rating" Grade.ofJson? }

end Profile

namespace Health

/-- The issues of a run in JSON. -/
def toJson (h : Health) : Json :=
  .ofMembers
    [("totalIssues", .ofNat h.issues),
      ("errors", .ofNat h.errors),
      ("warnings", .ofNat h.warnings),
      ("infos", .ofNat h.infos),
      ("fixable", .ofNat h.fixable),
      ("unclassifiedResults", .ofNat h.unclassified),
      ("grade", .ofString h.grade.letter)]

def fieldNames : List String :=
  ["totalIssues", "errors", "warnings", "infos", "fixable", "unclassifiedResults", "grade"]

/-- The issues of a run that a JSON value is. Whether the counts add up is not looked at. -/
def ofJson? (j : Json) : Option Health := do
  let r ← Record.read? fieldNames [] j
  return {
    issues := ← r.required "totalIssues" Json.count64?
    errors := ← r.required "errors" Json.count64?
    warnings := ← r.required "warnings" Json.count64?
    infos := ← r.required "infos" Json.count64?
    fixable := ← r.required "fixable" Json.count64?
    unclassified := ← r.required "unclassifiedResults" Json.count64?
    grade := ← r.required "grade" Grade.ofJson? }

end Health

namespace Snapshot

/-- A snapshot in JSON. -/
def toJson (s : Snapshot Float) : Json :=
  .ofMembers
    [("overallScore", .ofFloat s.score),
      ("technicalDebt", s.debt.toJson),
      ("maintainability", s.profile.toJson),
      ("trends", s.trend.toJson),
      ("codeHealth", s.health.toJson),
      ("prediction", s.forecast.toJson),
      ("timestamp", .ofString s.instant.text),
      ("version", .ofString s.version)]

/-- The fields of a snapshot, none of which may be left out. -/
def fieldNames : List String :=
  ["overallScore", "technicalDebt", "maintainability", "trends", "codeHealth", "prediction",
    "timestamp", "version"]

/-- The snapshot that a JSON value is. -/
def ofJson? (j : Json) : Option (Snapshot Float) := do
  let r ← Record.read? fieldNames [] j
  return {
    score := ← r.required "overallScore" Json.float?
    debt := ← r.required "technicalDebt" Debt.ofJson?
    profile := ← r.required "maintainability" Profile.ofJson?
    trend := ← r.required "trends" Trend.ofJson?
    health := ← r.required "codeHealth" Health.ofJson?
    forecast := ← r.required "prediction" Forecast.ofJson?
    instant := ← r.required "timestamp" Instant.ofJson?
    version := ← r.required "version" Json.string? }

end Snapshot

namespace Report

/-- What a run tells, in JSON. -/
def toJson (r : Report Float) : Json :=
  .ofMembers
    [("breakdown", r.breakdown.toJson),
      ("snapshot", r.snapshot.toJson),
      ("suggestions", .array (r.suggestions.map (·.toJson)))]

def fieldNames : List String := ["breakdown", "snapshot", "suggestions"]

/-- What a run told, read back from JSON. -/
def ofJson? (j : Json) : Option (Report Float) := do
  let r ← Record.read? fieldNames [] j
  return {
    breakdown := ← r.required "breakdown" Breakdown.ofJson?
    snapshot := ← r.required "snapshot" Snapshot.ofJson?
    suggestions := ← r.required "suggestions" (Json.list? Suggestion.ofJson?) }

end Report

namespace Monitor

/-- The history of a monitor as a JSON text. -/
def historyText (m : Monitor Float) : String :=
  Json.write Json.pretty (.array (m.history.entries.map (·.toJson)))

/-- A monitor that starts with the history in a JSON text. -/
def ofHistoryText (config : Config Float) (text : String) : Except Error (Monitor Float) :=
  match (Json.read? text).bind (Json.list? Snapshot.ofJson?) with
  | some snapshots => resume config snapshots
  | none => .error .json

end Monitor

end CodeQuality
