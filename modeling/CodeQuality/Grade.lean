import CodeQuality.Number.Scalar

/-!
# Grades

Letters for the maintainability of code and for its overall score.
-/

namespace CodeQuality

/-- A letter from best to worst. -/
inductive Grade where
  | a
  | b
  | c
  | d
  | f
deriving DecidableEq

namespace Grade

/-- All grades, the best first. -/
def all : List Grade := [a, b, c, d, f]

/-- The letter of a grade. -/
def letter : Grade → String
  | a => "A"
  | b => "B"
  | c => "C"
  | d => "D"
  | f => "F"

/-- The grade of a letter. -/
def named? (s : String) : Option Grade := all.find? (·.letter == s)

theorem named?_letter (g : Grade) : named? g.letter = some g := by cases g <;> decide

/-- How many grades are better. -/
def rank : Grade → Nat
  | a => 0
  | b => 1
  | c => 2
  | d => 3
  | f => 4

instance : Ord Grade := ⟨fun g h => compare g.rank h.rank⟩

variable {α : Type} [Scalar α]

/-- The grade of a number by the least numbers of the four better grades. A number that reaches
none of them, or is none, has the worst. -/
def ofBands (least : α × α × α × α) (x : α) : Grade :=
  if least.1 ≤ x then a
  else if least.2.1 ≤ x then b
  else if least.2.2.1 ≤ x then c
  else if least.2.2.2 ≤ x then d
  else f

/-- The grade of a maintainability index. -/
def ofMaintainability (index : α) : Grade := ofBands (85.0, 65.0, 45.0, 25.0) index

/-- The grade of an overall score. -/
def ofScore (score : α) : Grade := ofBands (90.0, 80.0, 70.0, 60.0) score

end Grade

end CodeQuality
