import CodeQuality.Number.Scalar
import CodeQuality.Score.ByCategory
import CodeQuality.Error

/-!
# Weights

How much each category counts in the overall score. Weights are sound if each lies between `0` and
`1` and all add up to `1`, up to a tolerance; `Weights.fault?` says what is wrong with others, and
`Weights.repair` makes the best of them. A `Notice` tells of the repair, as of other input that was
passed over or put right.
-/

namespace CodeQuality

open Scalar

/-- How much each category counts. -/
abbrev Weights (α : Type) := ByCategory α

/-- What is wrong with weights. -/
inductive WeightFault (α : Type) where
  /-- The weight of a category is not between `0` and `1`. -/
  | outOfRange (category : Category)
  /-- The weights do not add up to `1`. -/
  | unbalanced (sum : α)

namespace WeightFault

/-- The name of a weight in messages. -/
def label : Category → String
  | .typeCheck => "Type check"
  | .lint => "Lint"
  | .coverage => "Coverage"
  | .complexity => "Complexity"

variable {α : Type} [Scalar α]

/-- The message of a fault. -/
def message : WeightFault α → String
  | outOfRange c => s!"{label c} weight must be between 0.0 and 1.0"
  | unbalanced sum => s!"Scoring weights must sum to 1.0, but sum to {fixed 3 sum}"

/-- The refusal of weights with a fault. -/
def error (fault : WeightFault α) : Error := .configuration fault.message

end WeightFault

namespace Weights

variable {α : Type} [Scalar α]

/-- The weights that count when none are given. -/
def standard : Weights α := ⟨0.25, 0.25, 0.30, 0.20⟩

/-- The sum of all weights. -/
def sum (w : Weights α) : α := w.typeCheck + w.lint + w.coverage + w.complexity

/-- How far the sum may be from `1`. -/
def tolerance : α := 0.001

/-- Whether weights miss the sum `1` by more than the tolerance. -/
def isUnbalanced (w : Weights α) : Bool := tolerance < magnitude (sum w - 1.0)

/-- Whether a single weight is between `0` and `1`. -/
def inRange (x : α) : Bool := 0.0 ≤ x && x ≤ 1.0

/-- The order in which weights are checked. -/
def checked : List Category := [.typeCheck, .lint, .coverage, .complexity]

/-- The first thing that is wrong with weights. -/
def fault? (w : Weights α) : Option (WeightFault α) :=
  match checked.find? fun c => !inRange (w.get c) with
  | some c => some (.outOfRange c)
  | none => if isUnbalanced w then some (.unbalanced (sum w)) else none

/-- Refuses weights with a fault. -/
def check (w : Weights α) : Except Error Unit :=
  match fault? w with
  | some fault => .error fault.error
  | none => .ok ()

/-- The weights divided by their sum, if they have one that is positive and not `1`. -/
def normalize (w : Weights α) : Weights α :=
  if 0.0 < sum w && isUnbalanced w then w.map (· / sum w) else w

/-- Whether dividing by the sum can help: no weight is negative and the sum is positive. -/
def isRescalable (w : Weights α) : Bool :=
  0.0 < sum w && checked.all fun c => 0.0 ≤ w.get c

/-- What weights with a fault are replaced by: themselves, rescaled, or else the standard ones. -/
def repair (w : Weights α) : Weights α := if isRescalable w then normalize w else standard

end Weights

/-! ## Notices -/

/-- A remark on the input. -/
inductive Notice (α : Type) where
  /-- A source file has syntax errors and is not measured. -/
  | skipped (path : String)
  /-- Faulty weights were divided by their sum. -/
  | weightsRescaled (fault : WeightFault α)
  /-- Faulty weights were replaced by the standard ones. -/
  | weightsReplaced (fault : WeightFault α)
  /-- The analysis at a position belongs to no category. -/
  | unclassified (index : Nat)

/-- The text of a notice. -/
def Notice.text {α : Type} [Scalar α] : Notice α → String
  | skipped path => s!"Skipping {path}: syntax errors"
  | weightsRescaled fault => s!"Invalid scoring weights: {fault.message}. Renormalizing."
  | weightsReplaced fault => s!"Invalid scoring weights: {fault.message}. Using defaults."
  | unclassified index =>
    s!"Result {index} matches no analyzer category; counting its issues without weight"

end CodeQuality
