import CodeQuality.Number.Scalar
import CodeQuality.Analysis.Category
import CodeQuality.Analysis.Issue
import CodeQuality.Analysis.Metrics

/-!
# Analyses

An analysis is what one analyzer reports, in a form that all analyzers share. Its category is the
tag that it carries, or else the first category that one of its metrics marks.
-/

namespace CodeQuality

/-- What one analyzer reports. -/
structure Analysis (α : Type) where
  /-- The category that the analyzer states. -/
  category : Option Category
  /-- The score that the analyzer states, between `0` and `100`. -/
  score : Option α
  issues : List Issue
  /-- Suggestions in the analyzer's own words. -/
  suggestions : List String
  metrics : Metrics α

/-- The first category that one of the metrics marks. -/
def Metrics.category? {α : Type} (metrics : Metrics α) : Option Category :=
  Category.all.find? fun c => c.markers.any metrics.has

namespace Analysis

variable {α : Type}

/-! ## Building -/

/-- An analysis without findings. -/
def empty (category : Option Category) : Analysis α := ⟨category, none, [], [], .empty⟩

def withScore (a : Analysis α) (score : α) : Analysis α := { a with score := some score }

def withIssues (a : Analysis α) (issues : List Issue) : Analysis α :=
  { a with issues := a.issues ++ issues }

/-- The analysis with a metric set. -/
def withMetric (a : Analysis α) (key : String) (value : α) : Analysis α :=
  { a with metrics := a.metrics.set key value }

def withSuggestion (a : Analysis α) (text : String) : Analysis α :=
  { a with suggestions := a.suggestions ++ [text] }

/-- What stands in for an analyzer that did not run to its end: score `0` and one error. -/
def failed [Scalar α] (category : Category) (reason : String) : Analysis α :=
  ((empty (some category)).withScore 0.0).withIssues
    [{ severity := .error
       file := "<analyzer>"
       message := s!"{category.title} analyzer failed: {reason}"
       rule := some "analyzer-failure" }]

/-! ## Reading off -/

def metric? (a : Analysis α) (key : String) : Option α := a.metrics.get? key

/-- The category of an analysis. -/
def classify (a : Analysis α) : Option Category := a.category.or a.metrics.category?

/-- The number of issues of a severity. -/
def countOf (a : Analysis α) (severity : Severity) : Nat :=
  a.issues.countP (·.severity == severity)

def errors (a : Analysis α) : Nat := a.countOf .error

def warnings (a : Analysis α) : Nat := a.countOf .warning

def infos (a : Analysis α) : Nat := a.countOf .info

/-- The number of issues that a tool can repair. -/
def fixables (a : Analysis α) : Nat := a.issues.countP (·.fixable)

/-- The percentage of code that tests cover: of all tests, or else of lines. -/
def coverage? (a : Analysis α) : Option α :=
  (a.metric? Metric.testCoverage).or (a.metric? Metric.lineCoverage)

/-- The percentage of strictly typed code. -/
def strictness? (a : Analysis α) : Option α := a.metric? Metric.strictModeCompliance

def averageComplexity? (a : Analysis α) : Option α := a.metric? Metric.averageComplexity

/-- The share of issues that a tool can repair: as reported, or else as counted. -/
def fixableRate [Scalar α] (a : Analysis α) : α :=
  match a.metric? Metric.fixableRate with
  | some rate => rate
  | none =>
    if a.issues.isEmpty then 0.0
    else Scalar.ofNat a.fixables / Scalar.ofNat a.issues.length

/-- The number of type errors: as reported, or else as counted. -/
def typeErrors [Scalar α] (a : Analysis α) : α :=
  (a.metric? Metric.typeErrors).getD (Scalar.ofNat a.errors)

end Analysis

end CodeQuality
