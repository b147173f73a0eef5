import CodeQuality.Proofs.Score.Penalties

/-!
# Analyzers that fail

`Breakdown.failed_not_higher`: in exact arithmetic and with sound weights, what stands in for an analyzer
that failed does not raise a score, wherever it is put in and whatever else is reported of its category.

In exact arithmetic the order of analyses is of no importance (`Breakdown.ofAnalyses_perm`), so that it may
stand in front. There it adds a zero to one component, which does not raise its mean
(`Exact.mean_zero_cons_le`). Its only issue is an error, which costs `2`, and `1.5` more as a type error;
but as the only issue it may also earn the bonus for few issues, which is `2`. So the penalties less the
bonuses grow by what that bonus was before, and by the type error (`penalties_failed`,
`bonuses_failed`).
-/

namespace CodeQuality

open Scalar Exact

/-! ## Order -/

section order

variable {xs ys : List ℝ} {as bs : List (Analysis ℝ)}

theorem Exact.mean_perm (h : xs.Perm ys) : mean xs = mean ys := by
  rw [mean, mean, h.isEmpty_eq, total_eq_sum, total_eq_sum, h.sum_eq, h.length_eq]

theorem inCategory_perm (h : as.Perm bs) (c : Category) : (inCategory c as).Perm (inCategory c bs) :=
  h.filter _

theorem componentScores_perm (h : as.Perm bs) : componentScores as = componentScores bs := by
  refine ByCategory.ext_get fun c => ?_
  rw [componentScores, componentScores, ByCategory.get_ofFn, ByCategory.get_ofFn]
  exact mean_perm ((inCategory_perm h c).map _)

theorem penalties_perm (h : as.Perm bs) : Penalties.of as = Penalties.of bs := by
  have hvalues (c : Category) (value? : Analysis ℝ → Option ℝ) (penalty : ℝ → ℝ) :
      Scalar.total (((inCategory c as).filterMap value?).map penalty) =
        Scalar.total (((inCategory c bs).filterMap value?).map penalty) := by
    rw [total_eq_sum, total_eq_sum, (((inCategory_perm h c).filterMap value?).map penalty).sum_eq]
  have herrors : Scalar.total ((inCategory .typeCheck as).map (·.typeErrors)) =
      Scalar.total ((inCategory .typeCheck bs).map (·.typeErrors)) := by
    rw [total_eq_sum, total_eq_sum, ((inCategory_perm h .typeCheck).map _).sum_eq]
  rw [Penalties.of, Penalties.of, hvalues, hvalues, herrors, totalCount_perm (h.map _)]

theorem bonuses_perm (h : as.Perm bs) : Bonuses.of as = Bonuses.of bs := by
  rw [Bonuses.of, Bonuses.of, (inCategory_perm h _).any_eq, (inCategory_perm h _).any_eq,
    (inCategory_perm h _).any_eq, h.any_eq]

/-- The same analyses in another order have the same score. -/
theorem Breakdown.ofAnalyses_perm (w : Weights ℝ) (h : as.Perm bs) :
    ofAnalyses w as = ofAnalyses w bs := by
  rw [ofAnalyses, ofAnalyses, componentScores_perm h, penalties_perm h, bonuses_perm h, h.countP_eq]

end order

/-! ## What a failed analyzer reports -/

namespace Analysis

variable (c : Category) (reason : String)

theorem componentScore_failed (d : Category) : (failed c reason : Analysis ℝ).componentScore d = 0 := by
  have hzero : (0.0 : ℝ) = 0 := by norm_num
  show clampScore (0.0 : ℝ) = 0
  rw [hzero, clampScore_of_mem (by norm_num)]

theorem typeErrors_failed : (failed c reason : Analysis ℝ).typeErrors = 1 := Nat.cast_one

theorem not_malformed_failed : ¬ (failed c reason : Analysis ℝ).Malformed := by
  -- the message names the analyzer, so that it is not blank, whatever the reason is
  have hmessage : Text.trim s!"{c.title} analyzer failed: {reason}" ≠ "" := by
    rw [ne_eq, ← Text.blank_iff, Bool.not_eq_true, Text.blank, List.all_eq_false]
    refine ⟨'a', ?_, by decide⟩
    simp only [String.toList_append, List.mem_append]
    exact .inl (.inr (by decide))
  rintro (⟨-, hvalue⟩ | ⟨hentry, -⟩ | ⟨hentry, -⟩ | ⟨hmem, hblank⟩ | ⟨hmem, hempty⟩)
  · exact absurd hvalue Bool.noConfusion
  · exact absurd hentry List.not_mem_nil
  · exact absurd hentry List.not_mem_nil
  · obtain rfl := List.mem_singleton.1 hmem
    exact hmessage hblank
  · obtain rfl := List.mem_singleton.1 hmem
    exact absurd hempty (by simp)

end Analysis

open Analysis

/-! ## A failed analyzer in front -/

/-- A further zero does not raise a mean of numbers that are not negative. -/
theorem Exact.mean_zero_cons_le {xs : List ℝ} (h : ∀ x ∈ xs, 0 ≤ x) : mean (0 :: xs) ≤ mean xs := by
  cases xs with
  | nil => exact (mean_singleton 0).trans_le (mean_mem ⟨le_rfl, zero_le_one⟩ (by simp)).1
  | cons x xs =>
    have hpos : (0 : ℝ) < (x :: xs).length := by
      rw [List.length_cons]
      positivity
    have hle : ((x :: xs).length : ℝ) ≤ (0 :: x :: xs).length := Nat.cast_le.2 (Nat.le_succ _)
    rw [mean, mean, List.isEmpty_cons, List.isEmpty_cons, total_eq_sum, total_eq_sum, List.sum_cons,
      zero_add]
    exact div_le_div_of_nonneg_left (List.sum_nonneg h) hpos hle

section failed

variable (c : Category) (reason : String) (as : List (Analysis ℝ))

theorem inCategory_failed (d : Category) :
    inCategory d (.failed c reason :: as) =
      if c = d then .failed c reason :: inCategory d as else inCategory d as := by
  have hclassify : ((failed c reason : Analysis ℝ).classify == some d) = decide (c = d) := by
    show (some c == some d) = _
    rw [Option.some_beq_some]
    rfl
  rw [inCategory, List.filter_cons, hclassify]
  simp only [decide_eq_true_eq]
  rfl

theorem filterMap_failed (d : Category) {value? : Analysis ℝ → Option ℝ}
    (h : value? (.failed c reason) = none) :
    (inCategory d (.failed c reason :: as)).filterMap value? = (inCategory d as).filterMap value? := by
  rw [inCategory_failed]
  split
  · rw [List.filterMap_cons, h]
  · rfl

theorem any_failed (d : Category) {p : Analysis ℝ → Bool} (h : p (.failed c reason) = false) :
    (inCategory d (.failed c reason :: as)).any p = (inCategory d as).any p := by
  rw [inCategory_failed]
  split
  · rw [List.any_cons, h, Bool.false_or]
  · rfl

theorem componentScores_failed_le (d : Category) :
    (componentScores (.failed c reason :: as)).get d ≤ (componentScores as).get d := by
  rw [componentScores, componentScores, ByCategory.get_ofFn, ByCategory.get_ofFn, inCategory_failed]
  split
  · rw [List.map_cons, componentScore_failed]
    refine mean_zero_cons_le fun x hx => ?_
    obtain ⟨a, -, rfl⟩ := List.mem_map.1 hx
    exact (a.componentScore_mem d).1
  · exact le_rfl

/-- What a failed analyzer costs as a type error. -/
noncomputable def typeErrorCost : ℝ := if c = .typeCheck then 1.5 else 0

theorem typeErrorCost_nonneg : 0 ≤ typeErrorCost c := by
  unfold typeErrorCost
  split <;> norm_num

theorem penalties_failed :
    (Penalties.of (.failed c reason :: as)).total = (Penalties.of as).total + 2 + typeErrorCost c := by
  have hcritical : (Penalties.of (.failed c reason :: as)).criticalIssues =
      (Penalties.of as).criticalIssues + 2 := by
    have herrors : errorCount (.failed c reason :: as) = errorCount as + 1 := by
      rw [errorCount, List.flatMap_cons, List.countP_append, Nat.add_comm]
      rfl
    have hcast : (ofNat (errorCount as + 1) : ℝ) = ofNat (errorCount as) + 1 := Nat.cast_succ _
    rw [criticalIssues_eq, criticalIssues_eq, herrors, hcast, add_mul]
    norm_num
  have hcomplexity : (Penalties.of (.failed c reason :: as)).highComplexity =
      (Penalties.of as).highComplexity := by
    rw [Penalties.of, Penalties.of, filterMap_failed c reason as .complexity rfl]
  have hcoverage : (Penalties.of (.failed c reason :: as)).lowCoverage =
      (Penalties.of as).lowCoverage := by
    rw [Penalties.of, Penalties.of, filterMap_failed c reason as .coverage rfl]
  have htypeErrors : (Penalties.of (.failed c reason :: as)).typeErrors =
      (Penalties.of as).typeErrors + typeErrorCost c := by
    rw [typeErrors_eq_sum, typeErrors_eq_sum, inCategory_failed, typeErrorCost]
    split
    · rw [List.map_cons, List.sum_cons, typeErrors_failed]
      ring
    · rw [add_zero]
  rw [Penalties.total, Penalties.total, hcritical, hcomplexity, hcoverage, htypeErrors]
  ring

/-- Of the bonuses a failed analyzer may earn that for few issues, and no other one. -/
theorem bonuses_failed :
    (Bonuses.of (.failed c reason :: as)).total = (Bonuses.of as).total + 2 - (Bonuses.of as).cleanCode := by
  have htwo : (2.0 : ℝ) = 2 := by norm_num
  have hclean : (Bonuses.of (.failed c reason :: as)).cleanCode = 2 := by
    rw [Bonuses.of, List.any_cons, htwo]
    rfl
  have hothers : (Bonuses.of (.failed c reason :: as)).strictMode = (Bonuses.of as).strictMode ∧
      (Bonuses.of (.failed c reason :: as)).highCoverage = (Bonuses.of as).highCoverage ∧
      (Bonuses.of (.failed c reason :: as)).lowComplexity = (Bonuses.of as).lowComplexity := by
    refine ⟨?_, ?_, ?_⟩
    · rw [Bonuses.of, Bonuses.of, any_failed c reason as .typeCheck rfl]
    · rw [Bonuses.of, Bonuses.of, any_failed c reason as .coverage rfl]
    · rw [Bonuses.of, Bonuses.of, any_failed c reason as .complexity rfl]
  rw [Bonuses.total, Bonuses.total, hclean, hothers.1, hothers.2.1, hothers.2.2]
  ring

end failed

/-! ## The score -/

namespace Breakdown

variable {w : Weights ℝ} {before after : List (Analysis ℝ)}

/-- **A failed analyzer does not raise a score.** Sound analyses are scored, with what stands in for the
analyzer in any place as without it. The score is not higher, and the penalties are higher by `2` and the
cost of a type error. If few issues have earned their bonus already, the penalties less the bonuses are
higher by `2` at least. -/
theorem failed_not_higher (hw : Weights.fault? w = none)
    (hsound : ∀ a ∈ before ++ after, ¬ a.Malformed) (c : Category) (reason : String) :
    ∃ r s, calculate w (before ++ after) = .ok r ∧
      calculate w (before ++ .failed c reason :: after) = .ok s ∧ s.overall ≤ r.overall ∧
      s.penalties.total = r.penalties.total + 2 + typeErrorCost c ∧
      (r.bonuses.cleanCode = 2 →
        r.penalties.total - r.bonuses.total + 2 ≤ s.penalties.total - s.bonuses.total) := by
  have hfront : ofAnalyses w (before ++ .failed c reason :: after) =
      ofAnalyses w (.failed c reason :: (before ++ after)) := ofAnalyses_perm w List.perm_middle
  have hsound' : ∀ a ∈ before ++ .failed c reason :: after, ¬ a.Malformed := by
    intro a ha
    rcases List.mem_cons.1 (List.perm_middle.mem_iff.1 ha) with rfl | ha
    · exact not_malformed_failed c reason
    · exact hsound a ha
  refine ⟨_, _, calculate_eq_ok_iff.2 ⟨hsound, rfl⟩, calculate_eq_ok_iff.2 ⟨hsound', rfl⟩, ?_⟩
  rw [hfront]
  generalize before ++ after = as
  have hpenalties := penalties_failed c reason as
  have hbonuses := bonuses_failed c reason as
  have hcost := typeErrorCost_nonneg c
  refine ⟨?_, hpenalties, fun hclean => ?_⟩
  · have hweighted : weightedScore w (componentScores (.failed c reason :: as)) ≤
        weightedScore w (componentScores as) :=
      weightedScore_mono (fun d => ((fault?_eq_none_iff.1 hw).1 d).1)
        (componentScores_failed_le c reason as)
    have hclean : 0 ≤ (Bonuses.of as).cleanCode := (award_mem (by norm_num) _).1
    rw [overall_ofAnalyses, overall_ofAnalyses]
    apply clampScore_mono
    show weightedScore w _ - (Penalties.of _).total + (Bonuses.of _).total ≤
      weightedScore w _ - (Penalties.of _).total + (Bonuses.of _).total
    linarith
  · show (Penalties.of as).total - (Bonuses.of as).total + 2 ≤ (Penalties.of _).total - (Bonuses.of _).total
    have hclean' : (Bonuses.of as).cleanCode = 2 := hclean
    linarith

/-- A type check fails between two others, of which the first has earned the bonus for few issues. -/
theorem failed_not_higher_between :
    ∃ r s, calculate .standard [checkCounted, checkWith 3] = .ok r ∧
      calculate .standard [checkCounted, .failed .typeCheck "timeout", checkWith 3] = .ok s ∧
      s.overall ≤ r.overall ∧ s.penalties.total = r.penalties.total + 3.5 ∧
      r.penalties.total - r.bonuses.total + 2 ≤ s.penalties.total - s.bonuses.total := by
  have hsound : ∀ a ∈ [checkCounted] ++ [checkWith 3], ¬ a.Malformed :=
    forall_not_malformed (by decide +kernel)
  obtain ⟨r, s, hr, hs, hoverall, hpenalties, hbalance⟩ :=
    failed_not_higher Exact.fault?_standard hsound .typeCheck "timeout"
  have hclean : r.bonuses.cleanCode = 2 := by
    rw [(calculate_eq_ok_iff.1 hr).2]
    show award (2.0 : ℝ) true = 2
    norm_num [award]
  refine ⟨r, s, hr, hs, hoverall, ?_, hbalance hclean⟩
  rw [hpenalties, typeErrorCost, if_pos rfl]
  ring

end Breakdown

end CodeQuality
