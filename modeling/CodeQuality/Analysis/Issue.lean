/-!
# Issues

A single finding of an analyzer, with its severity and its place.
-/

namespace CodeQuality

/-- How bad an issue is. -/
inductive Severity where
  | info
  | warning
  | error
deriving DecidableEq

namespace Severity

/-- All severities, the mildest first. -/
def all : List Severity := [info, warning, error]

/-- The name in data and messages. -/
def key : Severity → String
  | info => "info"
  | warning => "warning"
  | error => "error"

/-- The severity with a name in data. -/
def named? (s : String) : Option Severity := all.find? (·.key == s)

theorem named?_key (s : Severity) : named? s.key = some s := by cases s <;> decide

end Severity

/-- A finding of an analyzer. -/
structure Issue where
  severity : Severity
  /-- Path of the file. -/
  file : String
  line : Option Nat := none
  column : Option Nat := none
  message : String
  /-- Name of the broken rule. -/
  rule : Option String := none
  /-- Whether a tool can repair it. -/
  fixable : Bool := false
deriving DecidableEq

namespace Issue

/-- The issue with the name of its rule. -/
def withRule (issue : Issue) (rule : String) : Issue := { issue with rule := some rule }

/-- The issue at a place in its file. -/
def located (issue : Issue) (line column : Nat) : Issue :=
  { issue with line := some line, column := some column }

/-- The issue as one that a tool can repair. -/
def asFixable (issue : Issue) : Issue := { issue with fixable := true }

end Issue

end CodeQuality
