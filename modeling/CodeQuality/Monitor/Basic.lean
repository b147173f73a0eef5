import CodeQuality.Config.Basic
import CodeQuality.Monitor.Snapshot
import CodeQuality.Suggestion.Collect

/-!
# Monitors

A monitor watches a code base over time. Each run scores analyses and measured files, takes a
snapshot and puts it into the history, from which the trends of later runs are told. A run that is
refused changes nothing.

A run takes its place in the history at its instant, so that a run of the past is compared with
what came before and after it. Scores and debts are compared at the precision of the history.
-/

namespace CodeQuality

open Scalar

/-- A code base under watch. -/
structure Monitor (α : Type) [Scalar α] where
  config : Config α
  /-- The weights are sound. -/
  weights_sound : (Weights.fault? config.weights).isNone
  history : Timeline (Snapshot α) config.history.retention

/-- What a run tells. -/
structure Report (α : Type) where
  breakdown : Breakdown α
  snapshot : Snapshot α
  suggestions : List Suggestion

namespace Monitor

variable {α : Type} [Scalar α]

/-! ## Setting up -/

/-- A monitor without history, unless the weights are faulty. This is the answer wherever memory has
room for the history; `startIn` tells where it has not. -/
def start (config : Config α) : Except Error (Monitor α) :=
  match h : Weights.fault? config.weights with
  | some fault => .error fault.error
  | none => .ok ⟨config, by rw [h]; rfl, .empty⟩

/-- What becomes of the attempt to start a monitor where memory has room for a number of snapshots. The
weights are looked at first. Then room is reserved for as many snapshots as the history retains; if there
is not as much, the program stops without an answer. -/
def startIn (room : Nat) (config : Config α) : Option (Except Error (Monitor α)) :=
  match start config with
  | .error e => some (.error e)
  | .ok m => if max config.history.retention 1 ≤ room then some (.ok m) else none

/-- The monitor with a further snapshot in its history. -/
def record (m : Monitor α) (snapshot : Snapshot α) : Monitor α :=
  { m with history := m.history.insert snapshot }

/-- A monitor that starts with snapshots taken before. -/
def resume (config : Config α) (snapshots : List (Snapshot α)) : Except Error (Monitor α) := do
  let m ← start config
  return snapshots.foldl record m

/-! ## Running -/

/-- The analyses of a run. Measured files count as an analysis of their complexity, unless there is
one already. -/
def analysesOf (threshold : Nat) (as : List (Analysis α)) (files : List (FileMeasurement α)) :
    List (Analysis α) :=
  if files.isEmpty || as.any (·.classify == some .complexity) then as
  else as ++ [FileMeasurement.analysis threshold files]

/-- The scores in the history and a new one, put into a timeline that holds as much. -/
def scoresWith (m : Monitor α) (now : Instant) (score : α) :
    Timeline (Point α) m.config.history.retention :=
  .ofList _ (m.history.entries.map Snapshot.scorePoint ++ [⟨now, hundredths score⟩])

/-- The trend of the scores in the history together with a new one. -/
def trendWith (m : Monitor α) (now : Instant) (score : α) : Trend α :=
  .ofScores m.config.history.window (m.scoresWith now score).values

/-- The debts in the history with a new one in its place, as many as the history holds. -/
def debtsWith (m : Monitor α) (now : Instant) (hours : α) : List α :=
  let earlier := m.history.entries.takeWhile fun s => s.instant ≤ now
  let later := m.history.entries.dropWhile fun s => s.instant ≤ now
  latest (max m.config.history.retention 1)
    (earlier.map (·.debt.hours) ++ hundredths hours :: later.map (·.debt.hours))

/-- The trend of the debts in the history together with a new one. -/
def debtTrendWith (m : Monitor α) (now : Instant) (hours : α) : DebtTrend :=
  .of (m.debtsWith now hours)

/-- The snapshot of a run, before the rounding. -/
def observe (m : Monitor α) (as : List (Analysis α)) (files : List (FileMeasurement α))
    (now : Instant) (breakdown : Breakdown α) : Snapshot α :=
  let issues := as.flatMap (·.issues)
  let debt :=
    Debt.ofIssues m.config.teamSize issues (linesOfCode as files)
      (m.debtTrendWith now (totalHours issues))
  let trend := m.trendWith now breakdown.overall
  { score := breakdown.overall
    debt
    profile := .of as files
    trend
    health := .of as breakdown
    forecast := .of m.config.target breakdown.overall trend debt
    instant := now
    version := Snapshot.currentVersion }

/-- What a run on analyses and measured files tells, and the monitor after it. -/
def evaluate (m : Monitor α) (as : List (Analysis α)) (files : List (FileMeasurement α))
    (now : Instant) : Except Error (Report α × Monitor α) := do
  let as := analysesOf m.config.threshold as files
  let breakdown ← Breakdown.calculate m.config.weights as
  let snapshot := (m.observe as files now breakdown).rounded
  return ({ breakdown, snapshot, suggestions := suggestions as }, m.record snapshot)

end Monitor

end CodeQuality
