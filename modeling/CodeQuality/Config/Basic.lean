import CodeQuality.Number.Statistics
import CodeQuality.Score.Weights

/-!
# Configurations

What can be set: the weights of the categories, the size of the team, the score to reach, the
complexity that is reported, and how much history counts. `Config.accept` repairs the weights of a
configuration and refuses a team or a history of nothing.
-/

namespace CodeQuality

/-- How much history counts. -/
structure HistoryLimits where
  /-- How many of the newest scores have a say in the trend. -/
  window : Nat := 10
  /-- How many snapshots are kept. -/
  retention : Nat := 100
deriving DecidableEq

/-- What can be set. -/
structure Config (α : Type) where
  weights : Weights α
  /-- The engineers who share the repair of debt. -/
  teamSize : Nat
  targetScore : α
  /-- The cyclomatic complexity above which a function is reported. -/
  threshold : Nat
  history : HistoryLimits

namespace Config

variable {α : Type} [Scalar α]

/-- What counts when nothing is set. -/
def standard : Config α :=
  { weights := Weights.standard
    teamSize := 3
    targetScore := 90.0
    threshold := 10
    history := {} }

/-- The target that forecasts are made for. -/
def target (config : Config α) : α := Scalar.clampScore config.targetScore

/-- The configuration with weights put right, and what is told about it. -/
def repair (config : Config α) : Config α × List (Notice α) :=
  match Weights.fault? config.weights with
  | none => (config, [])
  | some fault =>
    ({ config with weights := Weights.repair config.weights },
      [if Weights.isRescalable config.weights then .weightsRescaled fault
        else .weightsReplaced fault])

/-- The configuration that is used in place of one that was read, unless it is refused. -/
def accept (config : Config α) : Except Error (Config α × List (Notice α)) :=
  if config.teamSize = 0 then .error (.configuration "team_size must be at least 1")
  else if config.history.retention = 0 ∨ config.history.window = 0 then
    .error (.configuration "history window and retention must be at least 1")
  else .ok config.repair

end Config

end CodeQuality
