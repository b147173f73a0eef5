import CodeQuality.Config.Basic
import CodeQuality.Wire.Breakdown

/-!
# Configurations in JSON

Every field of a configuration has a default.
-/

namespace CodeQuality

namespace HistoryLimits

/-- The limits of a history in JSON. -/
def toJson (h : HistoryLimits) : Json :=
  .ofMembers [("window", .ofNat h.window), ("retention", .ofNat h.retention)]

def fieldNames : List String := ["window", "retention"]

/-- The limits of a history that a JSON value is; those that are left out are the standard ones. -/
def ofJson? (j : Json) : Option HistoryLimits := do
  let r ← Record.read? fieldNames [] j
  let standard : HistoryLimits := {}
  return {
    window := ← r.withDefault "window" standard.window Json.count64?
    retention := ← r.withDefault "retention" standard.retention Json.count64? }

end HistoryLimits

namespace Config

/-- A configuration in JSON, its numbers written by `number`. -/
def toJsonWith (number : Float → Json) (c : Config Float) : Json :=
  .ofMembers
    [("weights", c.weights.toJsonWith number),
      ("team_size", .ofNat c.teamSize),
      ("target_score", number c.targetScore),
      ("complexity_threshold", .ofNat c.threshold),
      ("history", c.history.toJson)]

/-- A configuration in JSON. -/
def toJson : Config Float → Json := toJsonWith .ofFloat

def fieldNames : List String :=
  ["weights", "team_size", "target_score", "complexity_threshold", "history"]

/-- The configuration that a JSON value is, as it stands there. -/
def ofJson? (j : Json) : Option (Config Float) := do
  let r ← Record.read? fieldNames [] j
  let standard : Config Float := standard
  return {
    weights := ← r.withDefault "weights" standard.weights Weights.ofJson?
    teamSize := ← r.withDefault "team_size" standard.teamSize Json.count32?
    targetScore := ← r.withDefault "target_score" standard.targetScore Json.float?
    threshold := ← r.withDefault "complexity_threshold" standard.threshold Json.count32?
    history := ← r.withDefault "history" standard.history HistoryLimits.ofJson? }

end Config

end CodeQuality
