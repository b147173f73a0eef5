import CodeQuality.Json.Record
import CodeQuality.Number.Binary64
import CodeQuality.Score.Breakdown

/-!
# Scores in JSON

The weights have defaults and a second name for the weight of type checks; everything else must be
given.
-/

namespace CodeQuality

namespace ByCategory

/-- Values by category in JSON, written by `number`. -/
def toJsonWith {α : Type} (number : α → Json) (v : ByCategory α) : Json :=
  .ofMembers
    [("typeCheck", number v.typeCheck),
      ("lint", number v.lint),
      ("coverage", number v.coverage),
      ("complexity", number v.complexity)]

/-- Values by category in JSON. -/
def toJson : ByCategory Float → Json := toJsonWith .ofFloat

def fieldNames : List String := ["typeCheck", "lint", "coverage", "complexity"]

/-- The values by category that a JSON value is, all of them given. -/
def ofJson? (j : Json) : Option (ByCategory Float) := do
  let r ← Record.read? fieldNames [] j
  return {
    typeCheck := ← r.required "typeCheck" Json.float?
    lint := ← r.required "lint" Json.float?
    coverage := ← r.required "coverage" Json.float?
    complexity := ← r.required "complexity" Json.float? }

end ByCategory

/-- The weights that a JSON value is; those that are left out are the standard ones. -/
def Weights.ofJson? (j : Json) : Option (Weights Float) := do
  let r ← Record.read? ByCategory.fieldNames [("type_check", "typeCheck")] j
  let standard : Weights Float := Weights.standard
  return {
    typeCheck := ← r.withDefault "typeCheck" standard.typeCheck Json.float?
    lint := ← r.withDefault "lint" standard.lint Json.float?
    coverage := ← r.withDefault "coverage" standard.coverage Json.float?
    complexity := ← r.withDefault "complexity" standard.complexity Json.float? }

namespace Penalties

/-- Penalties in JSON. -/
def toJson (p : Penalties Float) : Json :=
  .ofMembers
    [("criticalIssues", .ofFloat p.criticalIssues),
      ("highComplexity", .ofFloat p.highComplexity),
      ("lowCoverage", .ofFloat p.lowCoverage),
      ("typeErrors", .ofFloat p.typeErrors)]

def fieldNames : List String := ["criticalIssues", "highComplexity", "lowCoverage", "typeErrors"]

/-- The penalties that a JSON value is. -/
def ofJson? (j : Json) : Option (Penalties Float) := do
  let r ← Record.read? fieldNames [] j
  return {
    criticalIssues := ← r.required "criticalIssues" Json.float?
    highComplexity := ← r.required "highComplexity" Json.float?
    lowCoverage := ← r.required "lowCoverage" Json.float?
    typeErrors := ← r.required "typeErrors" Json.float? }

end Penalties

namespace Bonuses

/-- Bonuses in JSON. -/
def toJson (b : Bonuses Float) : Json :=
  .ofMembers
    [("strictMode", .ofFloat b.strictMode),
      ("highCoverage", .ofFloat b.highCoverage),
      ("lowComplexity", .ofFloat b.lowComplexity),
      ("cleanCode", .ofFloat b.cleanCode)]

def fieldNames : List String := ["strictMode", "highCoverage", "lowComplexity", "cleanCode"]

/-- The bonuses that a JSON value is. -/
def ofJson? (j : Json) : Option (Bonuses Float) := do
  let r ← Record.read? fieldNames [] j
  return {
    strictMode := ← r.required "strictMode" Json.float?
    highCoverage := ← r.required "highCoverage" Json.float?
    lowComplexity := ← r.required "lowComplexity" Json.float?
    cleanCode := ← r.required "cleanCode" Json.float? }

end Bonuses

namespace Breakdown

/-- A score and what it is made of, in JSON. -/
def toJson (b : Breakdown Float) : Json :=
  .ofMembers
    [("overallScore", .ofFloat b.overall),
      ("weightedScore", .ofFloat b.weighted),
      ("componentScores", b.components.toJson),
      ("weights", b.weights.toJson),
      ("penalties", b.penalties.toJson),
      ("bonuses", b.bonuses.toJson),
      ("unclassifiedResults", .ofNat b.unclassified)]

def fieldNames : List String :=
  ["overallScore", "weightedScore", "componentScores", "weights", "penalties", "bonuses",
    "unclassifiedResults"]

/-- The score and what it is made of that a JSON value is; only its weights have defaults. -/
def ofJson? (j : Json) : Option (Breakdown Float) := do
  let r ← Record.read? fieldNames [] j
  return {
    overall := ← r.required "overallScore" Json.float?
    weighted := ← r.required "weightedScore" Json.float?
    components := ← r.required "componentScores" ByCategory.ofJson?
    weights := ← r.required "weights" Weights.ofJson?
    penalties := ← r.required "penalties" Penalties.ofJson?
    bonuses := ← r.required "bonuses" Bonuses.ofJson?
    unclassified := ← r.required "unclassifiedResults" Json.count64? }

end Breakdown

end CodeQuality
