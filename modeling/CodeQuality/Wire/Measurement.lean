import CodeQuality.Complexity.Measurement
import CodeQuality.Json.Record
import CodeQuality.Number.Binary64

/-!
# Measurements in JSON

Complexities are counts of 32 bits, lines and parameters counts of 64 bits.
-/

namespace CodeQuality

/-- The kind of a definition, by its name. -/
def Source.DefinitionKind.ofJson? : Json → Option DefinitionKind := Json.choice? named?

namespace Measurement

/-- The measurement of one definition in JSON. -/
def toJson (m : Measurement) : Json :=
  .ofMembers
    [("name", .ofString m.name),
      ("kind", .ofString m.kind.key),
      ("line", .ofNat m.line),
      ("cyclomaticComplexity", .ofNat m.cyclomatic),
      ("cognitiveComplexity", .ofNat m.cognitive),
      ("linesOfCode", .ofNat m.lines),
      ("parameterCount", .ofNat m.parameters)]

def fieldNames : List String :=
  ["name", "kind", "line", "cyclomaticComplexity", "cognitiveComplexity", "linesOfCode",
    "parameterCount"]

/-- The measurement of one definition that a JSON value is, all of its fields given. -/
def ofJson? (j : Json) : Option Measurement := do
  let r ← Record.read? fieldNames [] j
  return {
    name := ← r.required "name" Json.string?
    kind := ← r.required "kind" Source.DefinitionKind.ofJson?
    line := ← r.required "line" Json.count64?
    cyclomatic := ← r.required "cyclomaticComplexity" Json.count32?
    cognitive := ← r.required "cognitiveComplexity" Json.count32?
    lines := ← r.required "linesOfCode" Json.count64?
    parameters := ← r.required "parameterCount" Json.count64? }

end Measurement

namespace FileMeasurement

/-- The measurement of a file in JSON, its definitions in document order. -/
def toJson (file : FileMeasurement Float) : Json :=
  .ofMembers
    [("path", .ofString file.path),
      ("facts", .array (file.definitions.map (·.toJson))),
      ("cyclomaticComplexity", .ofNat file.cyclomatic),
      ("cognitiveComplexity", .ofNat file.cognitive),
      ("averageCyclomatic", .ofFloat file.averageCyclomatic),
      ("maintainabilityIndex", .ofFloat file.maintainability),
      ("linesOfCode", .ofNat file.lines)]

def fieldNames : List String :=
  ["path", "facts", "cyclomaticComplexity", "cognitiveComplexity", "averageCyclomatic",
    "maintainabilityIndex", "linesOfCode"]

/-- The measurement of a file that a JSON value is. Its figures are taken as they are given, not from its
definitions. -/
def ofJson? (j : Json) : Option (FileMeasurement Float) := do
  let r ← Record.read? fieldNames [] j
  return {
    path := ← r.required "path" Json.string?
    definitions := ← r.required "facts" (Json.list? Measurement.ofJson?)
    cyclomatic := ← r.required "cyclomaticComplexity" Json.count32?
    cognitive := ← r.required "cognitiveComplexity" Json.count32?
    averageCyclomatic := ← r.required "averageCyclomatic" Json.float?
    maintainability := ← r.required "maintainabilityIndex" Json.float?
    lines := ← r.required "linesOfCode" Json.count64? }

end FileMeasurement

end CodeQuality
