import CodeQuality.Complexity.Threshold
import CodeQuality.Score.Weights
import CodeQuality.Source.Dialect

/-!
# Source files

A source file with its syntax tree. A file with syntax errors has no tree and is not measured, which
is told apart from a file without functions.
-/

namespace CodeQuality

/-- A source file. -/
structure SourceFile where
  path : String
  text : String
  /-- The syntax tree, unless there are syntax errors. -/
  tree : Option Source.Tree

namespace SourceFile

variable {α : Type} [Scalar α]

/-- The measurement of a file of which tests cover a percentage. -/
def measure? (file : SourceFile) (coverage : α) : Option (FileMeasurement α) :=
  file.tree.map fun t => .ofTree file.path t (Source.lineCount file.text) coverage

/-- The notices on a file that is measured. -/
def notices (file : SourceFile) : List (Notice α) :=
  match file.tree with
  | some _ => []
  | none => [.skipped file.path]

end SourceFile

end CodeQuality
