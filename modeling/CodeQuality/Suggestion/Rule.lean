import CodeQuality.Analysis.Basic

/-!
# Suggestion rules

What is suggested to whom: each rule looks at a single analysis of its category. The rules stand in
the order of the categories that people see first; no two have the same name.
-/

namespace CodeQuality

open Scalar

/-- How urgent a suggestion is. -/
inductive Priority where
  | high
  | medium
  | low
deriving DecidableEq

namespace Priority

/-- All priorities, the most urgent first. -/
def all : List Priority := [high, medium, low]

/-- The name in data. -/
def key : Priority → String
  | high => "high"
  | medium => "medium"
  | low => "low"

/-- The priority with a name in data. -/
def named? (s : String) : Option Priority := all.find? (·.key == s)

theorem named?_key (p : Priority) : named? p.key = some p := by cases p <;> decide

/-- How many priorities are more urgent. -/
def rank : Priority → Nat
  | high => 0
  | medium => 1
  | low => 2

end Priority

/-- Something to be done. -/
structure Suggestion where
  id : String
  priority : Priority
  category : Option Category
  title : String
  description : String
deriving DecidableEq

/-- A suggestion for analyses of a category that a test picks out. -/
structure Rule (α : Type) where
  id : String
  priority : Priority
  category : Category
  applies : Analysis α → Bool
  title : String
  description : String

/-- The suggestion of a rule. -/
def Rule.suggestion {α : Type} (r : Rule α) : Suggestion :=
  { id := r.id
    priority := r.priority
    category := some r.category
    title := r.title
    description := r.description }

variable {α : Type} [Scalar α]

/-- Whether a metric is reported and below a limit. -/
def Analysis.metricBelow (a : Analysis α) (key : String) (limit : α) : Bool :=
  (a.metric? key).any (· < limit)

/-- Whether a metric is reported and above a limit. -/
def Analysis.metricAbove (a : Analysis α) (key : String) (limit : α) : Bool :=
  (a.metric? key).any (limit < ·)

/-- All rules. -/
def rules : List (Rule α) :=
  [{ id := "type-errors"
     priority := .high
     category := .typeCheck
     applies := fun a => 0 < a.errors || a.metricAbove Metric.typeErrors 0.0
     title := "Fix type errors"
     description := "Type errors hide real defects; resolve them before other cleanup." },
   { id := "strict-mode"
     priority := .medium
     category := .typeCheck
     applies := fun a => a.metricBelow Metric.strictModeCompliance 95.0
     title := "Enable strict type checking"
     description :=
      "Turn on strict compiler options file by file until the whole project complies." },
   { id := "type-coverage"
     priority := .low
     category := .typeCheck
     applies := fun a => a.metricBelow Metric.typeCoverage 90.0
     title := "Replace implicit any types"
     description := "Add explicit types where inference falls back to any." },
   { id := "lint-errors"
     priority := .high
     category := .lint
     applies := fun a => 0 < a.errors || a.metricAbove Metric.lintErrors 0.0
     title := "Resolve lint errors"
     description := "Lint errors usually flag likely bugs; fix them or document the exception." },
   { id := "lint-autofix"
     priority := .medium
     category := .lint
     applies := fun a => 0 < a.fixables || a.metricAbove Metric.fixableRate 0.0
     title := "Apply automatic lint fixes"
     description := "Run the linter with --fix to clear issues that need no manual work." },
   { id := "lint-warnings"
     priority := .low
     category := .lint
     applies := fun a => 10 < a.warnings || a.metricAbove Metric.lintWarnings 10.0
     title := "Reduce lint warnings"
     description := "Work the warning backlog down so new warnings stand out." },
   { id := "coverage-critical"
     priority := .high
     category := .coverage
     applies := fun a => a.coverage?.any (· < 60.0)
     title := "Add tests for uncovered code"
     description := "Coverage is below 60%; start with the most complex untested functions." },
   { id := "coverage-raise"
     priority := .medium
     category := .coverage
     applies := fun a => a.coverage?.any fun covered => 60.0 ≤ covered && covered < 80.0
     title := "Raise test coverage above 80%"
     description := "Cover the remaining error paths and edge cases." },
   { id := "coverage-branches"
     priority := .low
     category := .coverage
     applies := fun a => a.metricBelow Metric.branchCoverage 70.0
     title := "Cover both sides of conditionals"
     description := "Branch coverage is below 70%; add tests for the untaken branches." },
   { id := "complexity-hotspots"
     priority := .high
     category := .complexity
     applies := fun a => 0 < a.errors || a.metricAbove Metric.maxComplexity 15.0
     title := "Break up the most complex functions"
     description :=
      "Extract helpers and flatten nested conditionals in functions above the threshold." },
   { id := "complexity-average"
     priority := .medium
     category := .complexity
     applies := fun a => a.metricAbove Metric.averageComplexity 10.0
     title := "Lower average function complexity"
     description := "Prefer small single-purpose functions and early returns." },
   { id := "maintainability"
     priority := .medium
     category := .complexity
     applies := fun a => a.metricBelow Metric.maintainabilityIndex 45.0
     title := "Improve maintainability of large files"
     description := "Split long files into cohesive modules." }]

end CodeQuality
