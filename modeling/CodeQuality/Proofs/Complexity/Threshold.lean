import Mathlib.Data.List.Forall2
import CodeQuality.Complexity.Threshold
import CodeQuality.Proofs.Binary64.EqualScores

/-!
# Issues at a threshold and at a higher one

`FileMeasurement.issues_at_thresholds`: the issues of measured files are those of the functions and methods
above the threshold, one for each and in their order, and an issue is an error beyond one and a half times
the threshold. At a higher threshold some of these issues are gone and some errors have become warnings;
nothing else has changed but the messages.

Both statements are about the list of what is above the threshold (`above`), of which the list at a higher
threshold is a part (`above_filter`). The bound of one and a half times is not whole for odd thresholds. It
is compared in whole numbers, and floating point comes to the same answer for all counts below `2 ^ 32`, where
the bound is exact (`Measurement.severity_eq_error_iff`).
-/

namespace CodeQuality

/-! ## The bound in floating point -/

namespace Binary64

theorem denotes_oneAndAHalf : Denotes 1.5 (3 / 2) :=
  .of_full (s := .positive) (m := 3 * 2 ^ 51) (q := -52) rfl (by norm_num) (by norm_num)
    (by norm_num [signed])

theorem denotes_bound {n : ℕ} (hn : n < 2 ^ 32) : Denotes (Float.ofNat n * 1.5) (n * (3 / 2)) := by
  have hrounds := mul_roundsTo (denotes_ofNat (n := n) (by omega)) denotes_oneAndAHalf
  exact hrounds.denotes_mul (m := 3) (q := -1) (by norm_num) (by norm_num) (by norm_num) (by norm_num)
    (by omega)

theorem bound_lt_iff {n k : ℕ} (hn : n < 2 ^ 32) (hk : k < 2 ^ 32) :
    (Scalar.ofNat n * 1.5 : Float) < Scalar.ofNat k ↔ 3 * n < 2 * k := by
  have hlt := (denotes_bound hn).lt_iff (denotes_ofNat (n := k) (by omega))
  refine hlt.trans ?_
  constructor
  · intro h
    have htwice : (3 * n : ℚ) < 2 * k := by linarith
    exact_mod_cast htwice
  · intro h
    have htwice : (3 * n : ℚ) < 2 * k := by exact_mod_cast h
    linarith

end Binary64

/-! ## Severities -/

namespace Measurement

variable {a b threshold : ℕ} {m : Measurement}

theorem severity_eq_error_iff : m.severity threshold = .error ↔ 3 * threshold < 2 * m.cyclomatic := by
  unfold severity
  by_cases h : 3 * threshold < 2 * m.cyclomatic
  · simp [h]
  · simp [h]

theorem severity_eq_warning_iff :
    m.severity threshold = .warning ↔ 2 * m.cyclomatic ≤ 3 * threshold := by
  unfold severity
  by_cases h : 3 * threshold < 2 * m.cyclomatic
  · simp [h]
  · simp only [h, if_false, true_iff]
    omega

theorem severity_lowered (h : a ≤ b) :
    m.severity b = m.severity a ∨ m.severity a = .error ∧ m.severity b = .warning := by
  by_cases hb : 3 * b < 2 * m.cyclomatic
  · left
    rw [severity_eq_error_iff.2 hb, severity_eq_error_iff.2 (by omega)]
  · have hwarning : m.severity b = .warning := severity_eq_warning_iff.2 (by omega)
    by_cases ha : 3 * a < 2 * m.cyclomatic
    · right
      exact ⟨severity_eq_error_iff.2 ha, hwarning⟩
    · left
      rw [hwarning, severity_eq_warning_iff.2 (by omega)]

end Measurement

namespace FileMeasurement

variable {α : Type} {a b threshold : ℕ}

/-! ## What is above a threshold -/

/-- The functions and methods of files above a threshold, each with its file. -/
def above (threshold : ℕ) (files : List (FileMeasurement α)) : List (FileMeasurement α × Measurement) :=
  files.flatMap fun file =>
    (file.definitions.filter fun m => m.kind ≠ .class ∧ threshold < m.cyclomatic).map fun m => (file, m)

/-- What an issue says about a function of a file. -/
structure Reports (threshold : ℕ) (p : FileMeasurement α × Measurement) (issue : Issue) : Prop where
  file : issue.file = p.1.path
  line : issue.line = some p.2.line
  column : issue.column = none
  rule : issue.rule = some complexityRule
  fixable : issue.fixable = false
  error : issue.severity = .error ↔ 3 * threshold < 2 * p.2.cyclomatic
  warning : issue.severity = .warning ↔ 2 * p.2.cyclomatic ≤ 3 * threshold

/-- An issue that is another one, with a lower severity or the same one, its message apart. -/
structure Softened (i j : Issue) : Prop where
  same : j = { i with severity := j.severity, message := j.message }
  severity : j.severity = i.severity ∨ i.severity = .error ∧ j.severity = .warning

theorem issues_eq (threshold : ℕ) (files : List (FileMeasurement α)) :
    files.flatMap (·.issues threshold) =
      (above threshold files).map fun p => p.2.issue threshold p.1.path := by
  rw [above, List.map_flatMap]
  apply List.flatMap_congr
  intro file _
  rw [issues, callables, callablesOf, List.filter_filter, List.map_map]
  congr 1
  apply List.filter_congr
  intro m _
  by_cases hclass : m.kind = .class
  · simp [Measurement.isCallable, hclass]
  · simp [Measurement.isCallable, Measurement.exceeds, hclass]

/-- What is above a threshold is what is above a lower one and above itself. -/
theorem above_filter (h : a ≤ b) (files : List (FileMeasurement α)) :
    above b files = (above a files).filter fun p => b < p.2.cyclomatic := by
  rw [above, above, List.filter_flatMap]
  apply List.flatMap_congr
  intro file _
  rw [List.filter_map, List.filter_filter]
  congr 1
  apply List.filter_congr
  intro m _
  by_cases hexceeds : b < m.cyclomatic
  · have hlower : a < m.cyclomatic := by omega
    simp [hexceeds, hlower]
  · simp [hexceeds]

theorem reports_issue (threshold : ℕ) (p : FileMeasurement α × Measurement) :
    Reports threshold p (p.2.issue threshold p.1.path) where
  file := rfl
  line := rfl
  column := rfl
  rule := rfl
  fixable := rfl
  error := Measurement.severity_eq_error_iff
  warning := Measurement.severity_eq_warning_iff

theorem softened_issue (h : a ≤ b) (path : String) (m : Measurement) :
    Softened (m.issue a path) (m.issue b path) :=
  ⟨rfl, Measurement.severity_lowered h⟩

/-- **Issues at two thresholds.** At every threshold the issues are those of the functions and methods above
it, one for each and in order. Those at the higher of two thresholds are some of those at the lower one, each
with its severity or with a warning in place of an error. The bound between the two severities is that of
floating point as well, as long as threshold and complexity fit in 32 bits. -/
theorem issues_at_thresholds [Scalar α] (h : a ≤ b) (files : List (FileMeasurement α)) :
    (∀ threshold, List.Forall₂ (Reports threshold) (above threshold files)
      (analysis threshold files).issues) ∧
    (∃ kept, kept.Sublist (analysis a files).issues ∧
      List.Forall₂ Softened kept (analysis b files).issues) ∧
    ∀ threshold < 2 ^ 32, ∀ m : Measurement, m.cyclomatic < 2 ^ 32 →
      (m.severity threshold = .error ↔
        (Scalar.ofNat threshold * 1.5 : Float) < Scalar.ofNat m.cyclomatic) := by
  have hissues : ∀ threshold, (analysis threshold files).issues =
      (above threshold files).map fun p => p.2.issue threshold p.1.path :=
    fun threshold => issues_eq threshold files
  refine ⟨?_, ?_, ?_⟩
  · intro threshold
    rw [hissues, List.forall₂_map_right_iff, List.forall₂_same]
    intro p _
    exact reports_issue threshold p
  · -- what is kept are the issues, at the lower threshold, of what is above the higher one
    refine ⟨(above b files).map fun p => p.2.issue a p.1.path, ?_, ?_⟩
    · rw [hissues, above_filter h]
      exact List.filter_sublist.map _
    · rw [hissues, List.forall₂_map_left_iff, List.forall₂_map_right_iff, List.forall₂_same]
      intro p _
      exact softened_issue h p.1.path p.2
  · intro threshold hthreshold m hm
    rw [Measurement.severity_eq_error_iff, Binary64.bound_lt_iff hthreshold hm]

/-- A class with two methods, of which one is above seven and the other one above nine as well. -/
def twoMethods : FileMeasurement Float where
  path := "a.ts"
  definitions :=
    [⟨"A", .class, 1, 19, 0, 40, 0⟩, ⟨"A.f", .method, 2, 8, 0, 10, 0⟩,
      ⟨"A.g", .method, 12, 11, 0, 20, 0⟩]
  cyclomatic := 19
  cognitive := 0
  averageCyclomatic := 9.5
  maintainability := 70.0
  lines := 40

/-- From seven to nine one issue is gone, and the error beyond `10.5` is a warning below `13.5`. -/
theorem issues_at_thresholds_seven_nine :
    7 ≤ 9 ∧
      (analysis 7 [twoMethods]).issues.map (fun i => (i.line, i.severity)) =
        [(some 2, .warning), (some 12, .error)] ∧
      (analysis 9 [twoMethods]).issues.map (fun i => (i.line, i.severity)) = [(some 12, .warning)] ∧
      (∃ kept, kept.Sublist (analysis 7 [twoMethods]).issues ∧
        List.Forall₂ Softened kept (analysis 9 [twoMethods]).issues) ∧
      ∀ m ∈ twoMethods.definitions, m.severity 7 = .error ↔
        (Scalar.ofNat 7 * 1.5 : Float) < Scalar.ofNat m.cyclomatic := by
  have hle : 7 ≤ 9 := by decide
  obtain ⟨-, hkept, hbound⟩ := issues_at_thresholds hle [twoMethods]
  have hsmall : ∀ m ∈ twoMethods.definitions, m.cyclomatic < 2 ^ 32 := by decide
  refine ⟨hle, by decide, by decide, hkept, ?_⟩
  intro m hm
  exact hbound 7 (by norm_num) m (hsmall m hm)

end FileMeasurement

end CodeQuality
