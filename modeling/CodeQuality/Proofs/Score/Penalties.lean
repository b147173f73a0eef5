import CodeQuality.Proofs.Score.Monotone

/-!
# Penalties

`Breakdown.penalties_lower_iff`: in exact arithmetic three of the four penalties are never negative. The one
for type errors is negative exactly if the numbers of type errors add up to less than zero, which takes an
analysis that reports such a number as a metric: counted errors are not negative, and the reported ones are
not moved to zero. Penalties that are negative together raise a score, unless its band hides it.
-/

namespace CodeQuality

open Scalar Exact

variable {as : List (Analysis ℝ)}

theorem Exact.clampScore_sub_le_iff (x p : ℝ) :
    clampScore (x - p) ≤ clampScore x ↔ 0 ≤ p ∨ 100 ≤ x ∨ x - p ≤ 0 := by
  constructor
  · intro h
    by_contra! hnot
    obtain ⟨hp, hx, hxp⟩ := hnot
    refine absurd h (not_le.2 ?_)
    rw [clampScore_eq, clampScore_eq, min_eq_left hx.le, max_eq_right (le_min hxp.le (by norm_num))]
    exact max_lt (lt_min hxp (by norm_num)) (lt_min (by linarith) hx)
  · rintro (hp | hx | hxp)
    · exact clampScore_mono (by linarith)
    · rw [clampScore_eq x, min_eq_right hx, max_eq_right (by norm_num)]
      exact (clampScore_mem _).2
    · rw [clampScore_eq (x - p), min_eq_left (by linarith), max_eq_left hxp]
      exact (clampScore_mem _).1

/-! ## Each penalty -/

theorem criticalIssues_nonneg (as : List (Analysis ℝ)) : 0 ≤ (Penalties.of as).criticalIssues := by
  rw [criticalIssues_eq]
  exact mul_nonneg (Nat.cast_nonneg _) (by norm_num)

theorem typeErrors_eq_sum (as : List (Analysis ℝ)) :
    (Penalties.of as).typeErrors = ((inCategory .typeCheck as).map (·.typeErrors)).sum * 1.5 := by
  rw [← total_eq_sum]
  rfl

theorem typeErrors_nonneg_iff (as : List (Analysis ℝ)) :
    0 ≤ (Penalties.of as).typeErrors ↔ 0 ≤ ((inCategory .typeCheck as).map (·.typeErrors)).sum := by
  rw [typeErrors_eq_sum]
  exact mul_nonneg_iff_of_pos_right (by norm_num)

theorem Analysis.typeErrors_nonneg {a : Analysis ℝ}
    (h : ∀ n, a.metric? Metric.typeErrors = some n → 0 ≤ n) : 0 ≤ a.typeErrors := by
  unfold typeErrors
  cases hmetric : a.metric? Metric.typeErrors with
  | some n => exact h n hmetric
  | none => exact Nat.cast_nonneg _

theorem typeErrors_nonneg
    (h : ∀ a ∈ inCategory .typeCheck as, ∀ n, a.metric? Metric.typeErrors = some n → 0 ≤ n) :
    0 ≤ (Penalties.of as).typeErrors := by
  refine (typeErrors_nonneg_iff as).2 (List.sum_nonneg fun x hx => ?_)
  obtain ⟨a, ha, rfl⟩ := List.mem_map.1 hx
  exact Analysis.typeErrors_nonneg (h a ha)

/-! ## All penalties -/

namespace Breakdown

theorem overall_le_iff (w : Weights ℝ) (as : List (Analysis ℝ)) :
    (ofAnalyses w as).overall ≤
        clampScore ((ofAnalyses w as).weighted + (ofAnalyses w as).bonuses.total) ↔
      0 ≤ (ofAnalyses w as).penalties.total ∨
        100 ≤ (ofAnalyses w as).weighted + (ofAnalyses w as).bonuses.total ∨
        (ofAnalyses w as).raw ≤ 0 := by
  have hraw : (ofAnalyses w as).raw = (ofAnalyses w as).weighted + (ofAnalyses w as).bonuses.total -
      (ofAnalyses w as).penalties.total := by
    rw [raw]
    ring
  rw [overall_ofAnalyses, hraw]
  exact clampScore_sub_le_iff _ _

/-- **When penalties lower a score.** Sound analyses are scored. The penalties for errors, complexity and
missing coverage are not negative, and the one for type errors is negative exactly if the numbers of type
errors add up to less than zero. The score is not above the one without penalties exactly if the penalties
are not negative together, or if the band hides it. All is well if no type check reports a negative
number of type errors. -/
theorem penalties_lower_iff (w : Weights ℝ) (hsound : ∀ a ∈ as, ¬ a.Malformed) :
    ∃ r, calculate w as = .ok r ∧ 0 ≤ r.penalties.criticalIssues ∧ 0 ≤ r.penalties.highComplexity ∧
      0 ≤ r.penalties.lowCoverage ∧
      (0 ≤ r.penalties.typeErrors ↔ 0 ≤ ((inCategory .typeCheck as).map (·.typeErrors)).sum) ∧
      (r.overall ≤ clampScore (r.weighted + r.bonuses.total) ↔
        0 ≤ r.penalties.total ∨ 100 ≤ r.weighted + r.bonuses.total ∨ r.raw ≤ 0) ∧
      ((∀ a ∈ inCategory .typeCheck as, ∀ n, a.metric? Metric.typeErrors = some n → 0 ≤ n) →
        0 ≤ r.penalties.typeErrors ∧ r.overall ≤ clampScore (r.weighted + r.bonuses.total)) := by
  have hcritical := criticalIssues_nonneg as
  have hcomplexity := (highComplexity_mem as).1
  have hcoverage := (lowCoverage_mem as).1
  refine ⟨_, calculate_eq_ok_iff.2 ⟨hsound, rfl⟩, hcritical, hcomplexity, hcoverage,
    typeErrors_nonneg_iff as, overall_le_iff w as, fun h => ?_⟩
  have htypeErrors := typeErrors_nonneg h
  refine ⟨htypeErrors, (overall_le_iff w as).2 (.inl ?_)⟩
  show 0 ≤ (Penalties.of as).total
  rw [Penalties.total]
  linarith

/-! ### Reported numbers of type errors -/

/-- A type check with a score that reports its number of type errors. -/
noncomputable def checkWith (errors : ℝ) : Analysis ℝ :=
  ((Analysis.empty (some .typeCheck)).withScore 50).withMetric Metric.typeErrors errors

/-- A type check that leaves its two errors to be counted. -/
def checkCounted : Analysis ℝ :=
  (Analysis.empty (some .typeCheck)).withIssues
    (List.replicate 2 { severity := .error, file := "a.ts", message := "not a number" })

theorem typeErrors_checkWith (errors : ℝ) : (checkWith errors).typeErrors = errors := by
  have hmetric : (checkWith errors).metric? Metric.typeErrors = some errors :=
    (Metrics.get?_set ..).trans (if_pos rfl)
  rw [Analysis.typeErrors, hmetric]
  rfl

theorem weighted_checkWith (errors : ℝ) : (ofAnalyses .standard [checkWith errors]).weighted = 12.5 := by
  have hnone : mean ([] : List ℝ) = 0 := by norm_num [mean]
  have hcomponents : componentScores [checkWith errors] = ⟨50, 0, 0, 0⟩ := by
    refine ByCategory.ext_get fun c => ?_
    cases c with
    | typeCheck => exact (mean_singleton _).trans (clampScore_of_mem (by norm_num))
    | lint | coverage | complexity => exact hnone
  show weightedScore .standard (componentScores _) = _
  rw [hcomponents, weightedScore, total_eq_sum]
  norm_num [Category.all, ByCategory.get, Weights.standard]

theorem penalties_checkWith (errors : ℝ) : (Penalties.of [checkWith errors]).total = errors * 1.5 := by
  have hothers : Penalties.of [checkWith errors] =
      ⟨((0 : ℕ) : ℝ) * 2.0, smaller (Scalar.total []) 20.0, smaller (Scalar.total []) 15.0,
        Scalar.total [(checkWith errors).typeErrors] * 1.5⟩ := rfl
  rw [hothers, Penalties.total, typeErrors_checkWith, smaller_eq_min, smaller_eq_min, total_eq_sum,
    total_eq_sum]
  norm_num

theorem bonuses_checkWith (errors : ℝ) : (Bonuses.of [checkWith errors]).total = 2 := by
  have hall : Bonuses.of [checkWith errors] = ⟨0.0, 0.0, 0.0, 2.0⟩ := rfl
  rw [hall, Bonuses.total]
  norm_num

/-- Errors that another check counts make up for a negative number. -/
theorem penalties_lower_iff_counted :
    ∃ r, calculate .standard [checkWith (-1), checkCounted] = .ok r ∧ 0 ≤ r.penalties.typeErrors := by
  have hsound : ∀ a ∈ [checkWith (-1), checkCounted], ¬ a.Malformed :=
    Analysis.forall_not_malformed (by decide +kernel)
  obtain ⟨r, hr, -, -, -, htypeErrors, -⟩ := penalties_lower_iff .standard hsound
  refine ⟨r, hr, htypeErrors.2 ?_⟩
  show 0 ≤ ([(checkWith (-1)).typeErrors, checkCounted.typeErrors] : List ℝ).sum
  have hcounted : checkCounted.typeErrors = ((2 : ℕ) : ℝ) := rfl
  rw [typeErrors_checkWith, hcounted]
  norm_num

/-- A negative number of type errors is a penalty below zero, and it raises the score by `6`. -/
theorem negative_typeErrors :
    ∃ r, calculate .standard [checkWith (-4)] = .ok r ∧ r.penalties.typeErrors = -6 ∧
      clampScore (r.weighted + r.bonuses.total) = 14.5 ∧ r.overall = 20.5 := by
  have hsound : ∀ a ∈ [checkWith (-4)], ¬ a.Malformed :=
    Analysis.forall_not_malformed (by decide +kernel)
  refine ⟨_, calculate_eq_ok_iff.2 ⟨hsound, rfl⟩, ?_, ?_, ?_⟩
  · show Scalar.total [(checkWith (-4)).typeErrors] * 1.5 = -6
    rw [total_eq_sum, typeErrors_checkWith]
    norm_num
  · show clampScore ((ofAnalyses .standard [checkWith (-4)]).weighted +
      (Bonuses.of [checkWith (-4)]).total) = 14.5
    rw [weighted_checkWith, bonuses_checkWith, clampScore_of_mem] <;> norm_num
  · show clampScore ((ofAnalyses .standard [checkWith (-4)]).weighted -
      (Penalties.of [checkWith (-4)]).total + (Bonuses.of [checkWith (-4)]).total) = 20.5
    rw [weighted_checkWith, penalties_checkWith, bonuses_checkWith, clampScore_of_mem] <;> norm_num

end Breakdown

end CodeQuality
