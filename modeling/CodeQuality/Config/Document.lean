import CodeQuality.Config.Basic
import CodeQuality.Number.Binary64
import CodeQuality.Toml.Reader

/-!
# Configurations in TOML

A configuration is a table in which every field has a default. The weights and the history are
tables themselves, or arrays of their fields in order. Names that mean nothing are passed over, but
their values must be readable.
-/

namespace CodeQuality

namespace Toml.Value

/-- The count below `bound` that a value is. -/
def natBelow? (bound : Nat) : Value → Option Nat
  | integer n => if 0 ≤ n ∧ n < bound then some n.toNat else none
  | _ => none

/-- The number that a value is; integers of up to 64 bits count as numbers. -/
def number? : Value → Option Float
  | float x => some x
  | integer n => if -Int.pow 2 63 ≤ n ∧ n < Int.pow 2 64 then some (Float.ofInt n) else none
  | _ => none

/-- The fields that a value gives of a record with fields `names`: by name, or in order. A date has
none of them. -/
def fields? (names : List String) : Value → Option Entries
  | table _ entries => some entries
  | array _ items => some (names.zip items)
  | moment _ => some []
  | _ => none

end Toml.Value

open Toml

/-- The entries that have one of `names`, if all the others are readable. -/
def Toml.Entries.known? (names : List String) (entries : Entries) : Option Entries :=
  let (known, others) := entries.partition fun entry => names.contains entry.1
  if others.all (·.2.readable) then some known else none

/-- The field that is given by one of `names`, or else `value`; no field is given by two. -/
def Toml.Entries.field? {τ : Type} (entries : Entries) (names : List String) (value : τ)
    (read? : Value → Option τ) : Option τ :=
  match entries.filter fun entry => names.contains entry.1 with
  | [] => some value
  | [entry] => read? entry.2
  | _ => none

namespace Config

/-- The weights that a value gives. -/
def weights? (v : Value) : Option (Weights Float) := do
  let given ← v.fields? ["typeCheck", "lint", "coverage", "complexity"]
  let fields ← given.known? ["typeCheck", "type_check", "lint", "coverage", "complexity"]
  let standard : Weights Float := Weights.standard
  return {
    typeCheck := ← fields.field? ["typeCheck", "type_check"] standard.typeCheck Value.number?
    lint := ← fields.field? ["lint"] standard.lint Value.number?
    coverage := ← fields.field? ["coverage"] standard.coverage Value.number?
    complexity := ← fields.field? ["complexity"] standard.complexity Value.number? }

/-- The limits of the history that a value gives. -/
def history? (v : Value) : Option HistoryLimits := do
  let given ← v.fields? ["window", "retention"]
  let fields ← given.known? ["window", "retention"]
  let standard : HistoryLimits := {}
  return {
    window := ← fields.field? ["window"] standard.window (Value.natBelow? UInt64.size)
    retention := ← fields.field? ["retention"] standard.retention (Value.natBelow? UInt64.size) }

/-- The configuration that the entries of a document give, as it stands there. -/
def ofEntries? (entries : Entries) : Option (Config Float) := do
  let entries ← entries.known?
    ["weights", "team_size", "target_score", "complexity_threshold", "history"]
  let standard : Config Float := standard
  return {
    weights := ← entries.field? ["weights"] standard.weights weights?
    teamSize := ← entries.field? ["team_size"] standard.teamSize (Value.natBelow? UInt32.size)
    targetScore := ← entries.field? ["target_score"] standard.targetScore Value.number?
    threshold :=
      ← entries.field? ["complexity_threshold"] standard.threshold (Value.natBelow? UInt32.size)
    history := ← entries.field? ["history"] standard.history history? }

/-- The configuration that is used for a text, and what is told about it. -/
def parse (text : String) : Except Error (Config Float × List (Notice Float)) :=
  match (Toml.read? text).bind ofEntries? with
  | some config => config.accept
  | none => .error .toml

end Config

end CodeQuality
