import CodeQuality.Number.Statistics
import CodeQuality.Complexity.Cyclomatic
import CodeQuality.Complexity.Cognitive
import CodeQuality.Complexity.Definition
import CodeQuality.Series

/-!
# Measurements

The complexity of every definition of a syntax tree, and of a file as a whole. A class is measured
by its methods; the figures of a file count its functions and methods and not its classes, so that
no decision is counted twice. Cognitive complexities are summed up in 32 bits and wrap around.

The maintainability index of a file comes from its average cyclomatic complexity, its length and the
percentage of it that tests cover. The coverage enters through a sine, so that the index does not
grow steadily with it.
-/

namespace CodeQuality

open Source

/-- The complexity of one definition. -/
structure Measurement where
  name : String
  kind : DefinitionKind
  line : Nat
  cyclomatic : Nat
  cognitive : Nat
  lines : Nat
  parameters : Nat
deriving DecidableEq

/-- Whether a function or a method was measured. -/
def Measurement.isCallable (m : Measurement) : Bool := m.kind != .class

/-- The complexity of one file. -/
structure FileMeasurement (α : Type) where
  path : String
  /-- The definitions in document order. -/
  definitions : List Measurement
  /-- Sum over functions and methods. -/
  cyclomatic : Nat
  /-- Sum over functions and methods, in 32 bits. -/
  cognitive : Nat
  /-- Mean over functions and methods; `1` if there are none. -/
  averageCyclomatic : α
  maintainability : α
  lines : Nat

/-- The functions and methods among measured definitions. -/
def callablesOf (ms : List Measurement) : List Measurement := ms.filter (·.isCallable)

namespace FileMeasurement

variable {α : Type}

/-- The functions and methods of a file. -/
def callables (file : FileMeasurement α) : List Measurement := callablesOf file.definitions

/-- The largest cyclomatic complexity of a function or method; `0` if there are none. -/
def maxCyclomatic (file : FileMeasurement α) : Nat :=
  (file.callables.map (·.cyclomatic)).foldl max 0

/-- The number of lines of files, in 64 bits. -/
def totalLines (files : List (FileMeasurement α)) : Nat :=
  wrappedTotal UInt64.size (files.map (·.lines))

end FileMeasurement

/-- The mean cyclomatic complexity of measured functions; `1` if there are none. -/
def meanCyclomatic {α : Type} [Scalar α] (ms : List Measurement) : α :=
  if ms.isEmpty then 1.0 else Scalar.mean (ms.map fun m => Scalar.ofNat m.cyclomatic)

/-- The mean cognitive complexity of measured functions. -/
def meanCognitive {α : Type} [Scalar α] (ms : List Measurement) : α :=
  Scalar.mean (ms.map fun m => Scalar.ofNat m.cognitive)

/-- The maintainability index, between `0` and `100`. Complexity and length count as at least `1`
and the coverage as a percentage. -/
def maintainabilityIndex {α : Type} [Scalar α] (average : α) (lines : Nat) (coverage : α) : α :=
  let complexity := Scalar.larger average 1.0
  let length : α := Scalar.ofNat (max lines 1)
  let covered := Scalar.clamp 0.0 100.0 coverage
  Scalar.clamp 0.0 100.0
    (171.0 - 5.2 * Scalar.ln complexity - 0.23 * complexity - 16.2 * Scalar.ln length
      + 50.0 * Scalar.sin (Scalar.sqrt (2.4 * covered)))

namespace Source

/-- The measurement of a function or method, its own head included. -/
def Definition.measureOwn (d : Definition) : Measurement :=
  { name := d.name
    kind := d.kind
    line := d.tree.line
    cyclomatic := d.tree.cyclomatic
    cognitive := d.tree.cognitive
    lines := d.tree.lineCount
    parameters := d.tree.parameterCount }

/-- The definitions that belong to a class. -/
def Definition.membersIn (d : Definition) (ds : List Definition) : List Definition :=
  ds.filter fun m => m.owner == some d.address

/-- The measurement of a class: the sums over its methods, with a cyclomatic complexity of at least
`1`, and a cognitive complexity that is counted in 32 bits. -/
def Definition.measureClass (ds : List Definition) (d : Definition) : Measurement :=
  let methods := (d.membersIn ds).map (·.measureOwn)
  { name := d.name
    kind := .class
    line := d.tree.line
    cyclomatic := max (totalCount (methods.map (·.cyclomatic))) 1
    cognitive := wrappedTotal UInt32.size (methods.map (·.cognitive))
    lines := d.tree.lineCount
    parameters := 0 }

/-- The measurement of one of the definitions `ds` of a tree. -/
def Definition.measure (ds : List Definition) (d : Definition) : Measurement :=
  match d.kind with
  | .class => d.measureClass ds
  | .function | .method => d.measureOwn

/-- The measurements of all definitions of a tree. -/
def Tree.measurements (t : Tree) : List Measurement :=
  t.definitions.map fun d => d.measure t.definitions

end Source

/-- The measurement of a file of a number of lines, of which tests cover a percentage. -/
def FileMeasurement.ofTree {α : Type} [Scalar α] (path : String) (t : Tree) (lines : Nat)
    (coverage : α) : FileMeasurement α :=
  let ms := t.measurements
  let callables := callablesOf ms
  { path
    definitions := ms
    cyclomatic := totalCount (callables.map (·.cyclomatic))
    cognitive := wrappedTotal UInt32.size (callables.map (·.cognitive))
    averageCyclomatic := meanCyclomatic callables
    maintainability := maintainabilityIndex (meanCyclomatic callables) lines coverage
    lines }

end CodeQuality
