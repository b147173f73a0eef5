import CodeQuality.Analysis.Basic
import CodeQuality.Complexity.Measurement

/-!
# The complexity threshold

Functions and methods above a threshold are reported as issues, and measured files are summed up as
the analysis of the complexity category.
-/

namespace CodeQuality

/-- The rule that complex functions break. -/
def complexityRule : String := "complexity"

/-- Whether a definition is above the threshold. -/
def Measurement.exceeds (threshold : Nat) (m : Measurement) : Bool := threshold < m.cyclomatic

/-- The severity of a function above the threshold: an error beyond one and a half times of it. -/
def Measurement.severity (threshold : Nat) (m : Measurement) : Severity :=
  if 3 * threshold < 2 * m.cyclomatic then .error else .warning

/-- The issue of a function above the threshold. -/
def Measurement.issue (threshold : Nat) (path : String) (m : Measurement) : Issue :=
  { severity := m.severity threshold
    file := path
    line := some m.line
    message :=
      s!"Function '{m.name}' has cyclomatic complexity {m.cyclomatic} (threshold: {threshold})"
    rule := some complexityRule }

namespace FileMeasurement

variable {α : Type}

/-- The issues of a file: one for every function and method above the threshold. -/
def issues (threshold : Nat) (file : FileMeasurement α) : List Issue :=
  (file.callables.filter (·.exceeds threshold)).map (·.issue threshold file.path)

variable [Scalar α]

/-- The analysis that sums up measured files. -/
def analysis (threshold : Nat) (files : List (FileMeasurement α)) : Analysis α :=
  let callables := files.flatMap (·.callables)
  let largest := (files.map (·.maxCyclomatic)).foldl max 0
  { category := some .complexity
    score := none
    issues := files.flatMap (·.issues threshold)
    suggestions := []
    metrics := .ofList
      [(Metric.averageComplexity, meanCyclomatic callables),
        (Metric.maxComplexity, Scalar.ofNat largest),
        (Metric.cognitiveComplexity, meanCognitive callables),
        (Metric.maintainabilityIndex, Scalar.mean (files.map (·.maintainability))),
        (Metric.linesOfCode, Scalar.ofNat (totalLines files))] }

end FileMeasurement

end CodeQuality
