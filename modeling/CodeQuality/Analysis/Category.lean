/-!
# Categories of analyzers

The four families of analyzers, in the order that decides ties, and the keys of the metrics that
they report. No key marks two categories (`Category.markers_disjoint`).
-/

namespace CodeQuality

/-! ## Metric keys -/

namespace Metric

def typeErrors : String := "typeErrors"
def typeCoverage : String := "typeCoverage"
def strictModeCompliance : String := "strictModeCompliance"
def testCoverage : String := "testCoverage"
def lineCoverage : String := "lineCoverage"
def branchCoverage : String := "branchCoverage"
def averageComplexity : String := "averageComplexity"
def maxComplexity : String := "maxComplexity"
def cognitiveComplexity : String := "cognitiveComplexity"
def maintainabilityIndex : String := "maintainabilityIndex"
def linesOfCode : String := "linesOfCode"
def lintErrors : String := "lintErrors"
def lintWarnings : String := "lintWarnings"
def fixableRate : String := "fixableRate"

end Metric

/-! ## Categories -/

/-- The family that an analyzer belongs to. -/
inductive Category where
  | typeCheck
  | coverage
  | complexity
  | lint
deriving DecidableEq

namespace Category

/-- All categories, the one that wins a tie first. -/
def all : List Category := [typeCheck, coverage, complexity, lint]

/-- The name shown to people. -/
def title : Category → String
  | typeCheck => "Type Check"
  | coverage => "Coverage"
  | complexity => "Complexity"
  | lint => "Lint"

/-- The name in data. -/
def key : Category → String
  | typeCheck => "typeCheck"
  | coverage => "coverage"
  | complexity => "complexity"
  | lint => "lint"

/-- The category with a name in data. -/
def named? (s : String) : Option Category := all.find? (·.key == s)

/-- The metrics that give an untagged result away. -/
def markers : Category → List String
  | typeCheck => [Metric.typeErrors, Metric.strictModeCompliance, Metric.typeCoverage]
  | coverage => [Metric.testCoverage, Metric.lineCoverage, Metric.branchCoverage]
  | complexity => [Metric.averageComplexity, Metric.maxComplexity, Metric.maintainabilityIndex]
  | lint => [Metric.lintErrors, Metric.lintWarnings, Metric.fixableRate]

theorem mem_all (c : Category) : c ∈ all := by cases c <;> decide

theorem named?_key (c : Category) : named? c.key = some c := by cases c <;> decide

theorem markers_disjoint {c d : Category} {key : String} (hc : key ∈ c.markers)
    (hd : key ∈ d.markers) : c = d := by
  cases c <;> cases d <;> simp_all [markers] <;> rcases hc with h | h | h <;> subst h <;>
    simp_all [Metric.typeErrors, Metric.typeCoverage, Metric.strictModeCompliance,
      Metric.testCoverage, Metric.lineCoverage, Metric.branchCoverage, Metric.averageComplexity,
      Metric.maxComplexity, Metric.maintainabilityIndex, Metric.lintErrors, Metric.lintWarnings,
      Metric.fixableRate]

end Category

end CodeQuality
