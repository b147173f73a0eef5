import CodeQuality.Number.Statistics
import CodeQuality.Series
import CodeQuality.Analysis.Issue
import CodeQuality.Text

/-!
# Technical debt

Every issue stands for the hours that its repair takes. The debt of a run relates their sum to the
size of the code and to what a team can pay back, and tells from the last three sums where it is
heading.
-/

namespace CodeQuality

open Scalar

/-- Where the debt is heading. -/
inductive DebtTrend where
  | increasing
  | decreasing
  | stable
deriving DecidableEq

namespace DebtTrend

/-- All trends. -/
def all : List DebtTrend := [increasing, decreasing, stable]

/-- The name in data. -/
def key : DebtTrend → String
  | increasing => "increasing"
  | decreasing => "decreasing"
  | stable => "stable"

/-- The trend with a name in data. -/
def named? (s : String) : Option DebtTrend := all.find? (·.key == s)

theorem named?_key (t : DebtTrend) : named? t.key = some t := by cases t <;> decide

end DebtTrend

/-- The debt of a run. -/
structure Debt (α : Type) where
  /-- Hours to repair all issues. -/
  hours : α
  /-- Hours per thousand lines. -/
  ratio : α
  /-- Issues per thousand lines. -/
  density : α
  /-- The part of a tenth that the errors have among the issues. -/
  interest : α
  /-- Weeks in which the team pays the debt back. -/
  payback : α
  trend : DebtTrend

variable {α : Type} [Scalar α]

/-! ## Hours -/

/-- The hours that an issue of a severity takes, its rule apart. -/
def Severity.hours : Severity → α
  | .error => 2.0
  | .warning => 0.5
  | .info => 0.1

/-- How much harder than others the issues of a rule are to repair. The words that are looked for
consist of letters that only the letters `A` to `Z` have as their lower case. -/
def ruleMultiplier : Option String → α
  | none => 1.0
  | some rule =>
    if Text.mentions rule "complexity" then 2.0
    else if Text.mentions rule "typescript" || Text.mentions rule "type" then 1.5
    else if Text.mentions rule "coverage" then 1.2
    else 1.0

/-- The hours that an issue takes. -/
def Issue.hours (issue : Issue) : α := issue.severity.hours * ruleMultiplier issue.rule

/-- The hours that issues take together. -/
def totalHours (issues : List Issue) : α := issues.foldl (fun sum issue => sum + issue.hours) 0.0

/-! ## Debt -/

/-- Where debt is heading that had the given hours in the past, the oldest first. -/
def DebtTrend.of (history : List α) : DebtTrend :=
  if history.length < 3 then stable
  else
    let change := slope (latest 3 history)
    if 0.5 < change then increasing else if change < -0.5 then decreasing else stable

namespace Debt

/-- No debt. -/
def none : Debt α := ⟨0.0, 0.0, 0.0, 0.0, 0.0, .stable⟩

/-- The size of a team that counts: at least one. -/
def teamSize (team : Nat) : Nat := max team 1

/-- The part of a tenth that the errors have among the issues. -/
def interestOf (issues : List Issue) : α :=
  if issues.isEmpty then 0.0
  else
    smaller
      (ofNat (issues.countP (·.severity == .error)) / ofNat issues.length * 0.10) 0.10

/-- The debt of issues in code of a number of lines, for a team whose members each pay eight hours a
week. Code counts as at least a thousand lines. -/
def ofIssues (team : Nat) (issues : List Issue) (lines : Nat) (trend : DebtTrend) : Debt α :=
  let hours : α := totalHours issues
  let thousands : α := larger (ofNat lines / 1000.0) 1.0
  { hours
    ratio := hours / thousands
    density := ofNat issues.length / thousands
    interest := interestOf issues
    payback := hours / (ofNat (teamSize team) * 8.0)
    trend }

/-- The debt of issues after debts of the given hours, the oldest first. -/
def estimate (team : Nat) (issues : List Issue) (lines : Nat) (history : List α) : Debt α :=
  ofIssues team issues lines (.of (history ++ [totalHours issues]))

end Debt

end CodeQuality
