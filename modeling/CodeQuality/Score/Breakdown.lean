import CodeQuality.Analysis.Defect
import CodeQuality.Score.Component
import CodeQuality.Score.Weights
import CodeQuality.Series

/-!
# The overall score

Analyses are grouped by category. The component score of a category is the mean over its analyses,
or `0` without any; the weighted sum of the four, less the penalties and with the bonuses, is the
overall score. An analysis without a category has no weight, but its errors are penalised.
-/

namespace CodeQuality

open Scalar

/-- What lowers a score. -/
structure Penalties (α : Type) where
  criticalIssues : α
  highComplexity : α
  lowCoverage : α
  typeErrors : α

/-- What raises a score. -/
structure Bonuses (α : Type) where
  strictMode : α
  highCoverage : α
  lowComplexity : α
  cleanCode : α

/-- An overall score with everything that makes it up. -/
structure Breakdown (α : Type) where
  overall : α
  weighted : α
  components : ByCategory α
  weights : Weights α
  penalties : Penalties α
  bonuses : Bonuses α
  /-- The number of analyses without a category. -/
  unclassified : Nat

variable {α : Type} [Scalar α]

/-- The analyses of a category. -/
def inCategory (c : Category) (as : List (Analysis α)) : List (Analysis α) :=
  as.filter fun a => a.classify == some c

/-! ## Components -/

/-- The component score of every category. -/
def componentScores (as : List (Analysis α)) : ByCategory α :=
  .ofFn fun c => mean ((inCategory c as).map (·.componentScore c))

/-- The sum of the component scores, each times its weight. -/
def weightedScore (w : Weights α) (components : ByCategory α) : α :=
  total (Category.all.map fun c => components.get c * w.get c)

/-! ## Penalties -/

/-- The sum of the penalties. -/
def Penalties.total (p : Penalties α) : α :=
  p.criticalIssues + p.highComplexity + p.lowCoverage + p.typeErrors

/-- Twice the average complexity beyond `10`. -/
def excessComplexity (average : α) : α := larger (average - 10.0) 0.0 * 2.0

/-- Half of the coverage that is missing to `60`. -/
def missingCoverage (covered : α) : α := larger (60.0 - covered) 0.0 * 0.5

/-- The penalties of analyses: `2` for every error; at most `20` for complexity and at most `15` for
missing coverage, summed over the analyses that report them; `1.5` for every type error. -/
def Penalties.of (as : List (Analysis α)) : Penalties α :=
  { criticalIssues := ofNat (totalCount (as.map (·.errors))) * 2.0
    highComplexity :=
      smaller
        (Scalar.total
          (((inCategory .complexity as).filterMap (·.averageComplexity?)).map excessComplexity))
        20.0
    lowCoverage :=
      smaller
        (Scalar.total (((inCategory .coverage as).filterMap (·.coverage?)).map missingCoverage))
        15.0
    typeErrors := Scalar.total ((inCategory .typeCheck as).map (·.typeErrors)) * 1.5 }

/-! ## Bonuses -/

/-- The sum of the bonuses. -/
def Bonuses.total (b : Bonuses α) : α :=
  b.strictMode + b.highCoverage + b.lowComplexity + b.cleanCode

/-- A bonus, if it is earned. -/
def award (amount : α) (earned : Bool) : α := if earned then amount else 0.0

/-- The bonuses of analyses. Each is awarded once, however many analyses earn it. -/
def Bonuses.of (as : List (Analysis α)) : Bonuses α :=
  { strictMode := award 3.0 ((inCategory .typeCheck as).any fun a => a.strictness?.any (95.0 < ·))
    highCoverage := award 5.0 ((inCategory .coverage as).any fun a => a.coverage?.any (90.0 < ·))
    lowComplexity :=
      award 3.0 ((inCategory .complexity as).any fun a => a.averageComplexity?.any (· < 5.0))
    cleanCode := award 2.0 (as.any fun a => a.classify.isSome && a.issues.length < 5) }

/-! ## Overall -/

namespace Breakdown

/-- The score of analyses that have no defect. -/
def ofAnalyses (w : Weights α) (as : List (Analysis α)) : Breakdown α :=
  let components := componentScores as
  let weighted := weightedScore w components
  let penalties := Penalties.of as
  let bonuses := Bonuses.of as
  { overall := clampScore (weighted - penalties.total + bonuses.total)
    weighted
    components
    weights := w
    penalties
    bonuses
    unclassified := as.countP (·.classify.isNone) }

/-- The score of analyses, if none of them has a defect. -/
def calculate (w : Weights α) (as : List (Analysis α)) : Except Error (Breakdown α) := do
  Analysis.checkAll as
  return ofAnalyses w as

/-- The notices on analyses that are scored: one for each without a category. -/
def notices (as : List (Analysis α)) : List (Notice α) :=
  (as.zipIdx.filter fun p => p.1.classify.isNone).map fun p => .unclassified p.2

end Breakdown

end CodeQuality
