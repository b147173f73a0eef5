import CodeQuality.Number.Statistics
import CodeQuality.Analysis.Basic

/-!
# Component scores

The score of one analysis within its category: the score that it states, or else one that starts
from its issues and metrics. All component scores lie between `0` and `100`.
-/

namespace CodeQuality.Analysis

open Scalar

variable {α : Type} [Scalar α]

/-- The score of a type check: its share of strictly typed code may earn `5`. -/
def typeCheckScore (a : Analysis α) : α :=
  100.0 - 10.0 * ofNat a.errors - 2.0 * ofNat a.warnings
    + (if a.strictness?.any (95.0 < ·) then 5.0 else 0.0)

/-- The score of a linter: issues that a tool can repair may earn `3`. -/
def lintScore (a : Analysis α) : α :=
  100.0 - 5.0 * ofNat a.errors - ofNat a.warnings - 0.5 * ofNat a.infos
    + (if 0.8 < a.fixableRate then 3.0 else 0.0)

/-- The score of a test run: the percentage covered, raised when it is high and lowered when it is
low. -/
def coverageScore (a : Analysis α) : α :=
  let covered := a.coverage?.getD 0.0
  covered + (if 90.0 < covered then 5.0 else if covered < 50.0 then -10.0 else 0.0)

/-- The score of a complexity analysis: an average below `10` raises it, one above lowers it. -/
def complexityScore (a : Analysis α) : α :=
  100.0 - 15.0 * ofNat a.errors - 5.0 * ofNat a.warnings
    + (a.averageComplexity?.map fun average => 3.0 * (10.0 - average)).getD 0.0

/-- The score that the issues and metrics of an analysis amount to. -/
def derivedScore (c : Category) (a : Analysis α) : α :=
  clampScore
    (match c with
      | .typeCheck => a.typeCheckScore
      | .lint => a.lintScore
      | .coverage => a.coverageScore
      | .complexity => a.complexityScore)

/-- The score of an analysis as one of a category. -/
def componentScore (c : Category) (a : Analysis α) : α :=
  match a.score with
  | some score => clampScore score
  | none => a.derivedScore c

end CodeQuality.Analysis
