import CodeQuality.Analysis.Basic
import CodeQuality.Text
import CodeQuality.Error

/-!
# Defects of analyses

What would make a score meaningless: numbers that are none, and names, messages and files that are
missing. `Analysis.defect?` finds the first one, in the order score, metrics, issues.
-/

namespace CodeQuality

/-- What is wrong with an analysis. Issues are told by their position. -/
inductive Defect where
  | score (value : NonFinite)
  | metricName
  | metric (key : String) (value : NonFinite)
  | issueMessage (position : Nat)
  | issueFile (position : Nat)
deriving DecidableEq

namespace Defect

/-- The field at fault, within the analysis at `index` of the input. -/
def field (index : Nat) : Defect → String
  | score _ => s!"results[{index}].score"
  | metricName => s!"results[{index}].metrics"
  | metric key _ => s!"results[{index}].metrics.{key}"
  | issueMessage position => s!"results[{index}].issues[{position}].message"
  | issueFile position => s!"results[{index}].issues[{position}].file"

/-- What is wrong with the field. -/
def reason : Defect → String
  | score value => "score must be a finite number, got " ++ value.text
  | metricName => "metric names must not be empty"
  | metric _ value => "metric must be a finite number, got " ++ value.text
  | issueMessage _ => "issue message must not be empty"
  | issueFile _ => "issue file must not be empty"

/-- The refusal of an input whose analysis at `index` has the defect. -/
def error (index : Nat) (d : Defect) : Error := .validation (d.field index) d.reason

end Defect

namespace Analysis

variable {α : Type} [Scalar α]

/-- What is wrong with one metric. -/
def metricDefect? (entry : String × α) : Option Defect :=
  if Text.blank entry.1 then some .metricName
  else (Scalar.nonFinite? entry.2).map (Defect.metric entry.1)

/-- What is wrong with the issue at a position. -/
def issueDefect? (p : Issue × Nat) : Option Defect :=
  if Text.blank p.1.message then some (.issueMessage p.2)
  else if p.1.file.isEmpty then some (.issueFile p.2)
  else none

/-- The first thing that is wrong with an analysis. -/
def defect? (a : Analysis α) : Option Defect :=
  ((a.score.bind Scalar.nonFinite?).map Defect.score).or
    ((a.metrics.entries.findSome? metricDefect?).or (a.issues.zipIdx.findSome? issueDefect?))

/-- Refuses the first analysis that has a defect; positions count from `index`. -/
def checkFrom (index : Nat) : List (Analysis α) → Except Error Unit
  | [] => .ok ()
  | a :: rest =>
    match a.defect? with
    | some d => .error (d.error index)
    | none => checkFrom (index + 1) rest

/-- Refuses analyses of which one has a defect. -/
def checkAll (as : List (Analysis α)) : Except Error Unit := checkFrom 0 as

end Analysis

end CodeQuality
